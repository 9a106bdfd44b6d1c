import Kvist.Json.Readable
import Kvist.Observation.Follower
import Kvist.Segments

/-!
# What a journal holds

The files of a journal are the lines of its records, numbered from one. The first of them alone
starts the run, a link names the file behind it, and every line keeps within the bounds.
-/

set_option autoImplicit false

namespace Kvist.Observation

open Json (Value)

variable {fromSlice : List UInt8 → Option Value} {journal : RunJournal}
  {records : List JournalRecord}

def JournalRecord.closes (record : JournalRecord) : Bool :=
  eventType record.event == some "journal_segment"

def links (records : List JournalRecord) : Nat := records.countP JournalRecord.closes

def layout (records : List JournalRecord) : List (List UInt8) :=
  Segments.files JournalRecord.line JournalRecord.closes records

theorem links_push (records : List JournalRecord) (record : JournalRecord) :
    links (records ++ [record]) = links records + if record.closes then 1 else 0 := by
  rw [links, List.countP_append, List.countP_singleton]
  rfl

/-- The record can be the next one. -/
structure Fits (runId : String) (before : List JournalRecord) (record : JournalRecord) : Prop where
  version : record.schemaVersion = 1
  runId : record.runId = runId
  sequence : record.sequence = before.length + 1
  bounded : before.length + 1 ≤ maxU64
  valid : validateEvent record.event = .ok ()
  first : eventType record.event = some "run_start" ↔ before = []
  unfinished : ∀ earlier ∈ before, eventType earlier.event ≠ some "run_end"
  link : eventType record.event = some "journal_segment" →
    record.event = journalSegment (links before + 1) ∧ links before + 1 ≤ maxU64
  terminal : eventType record.event = some "run_end" →
    ∃ disposition, record.event = runEnd disposition ∧
      terminalDisposition (runEnd disposition) = true
  size : record.line.length ≤ maxRecordBytes

def Written (runId : String) (records : List JournalRecord) : Prop :=
  ∀ before record after, records = before ++ record :: after → Fits runId before record

theorem Written.push {runId : String} {record : JournalRecord} (written : Written runId records)
    (fits : Fits runId records record) : Written runId (records ++ [record]) := by
  intro before other after same
  rcases List.eq_nil_or_concat after with rfl | ⟨front, last, rfl⟩
  · obtain ⟨rfl, rest⟩ := List.append_inj' same rfl
    obtain ⟨rfl, -⟩ := List.cons.inj rest
    exact fits
  · rw [List.concat_eq_append, ← List.cons_append, ← List.append_assoc] at same
    exact written before other front (List.append_inj' same rfl).1

theorem Written.nil (runId : String) : Written runId [] := by
  intro before record after same
  simp at same

/-- The journal consists of these records. -/
structure Kept (journal : RunJournal) (records : List JournalRecord) : Prop where
  files : layout records = journal.closed ++ [journal.file]
  segment : journal.segment = links records
  sequence : journal.sequence = records.length
  bytes : journal.bytes = journal.file.length
  room : journal.bytes + maxRecordBytes ≤ maxJournalBytes
  closedSizes : ∀ file ∈ journal.closed, file.length ≤ maxJournalBytes
  written : Written journal.runId records
  started : records ≠ []

def Unfinished (records : List JournalRecord) : Prop :=
  ∀ record ∈ records, eventType record.event ≠ some "run_end"

/-- An event that may follow the start of a run, other than a link. -/
structure Admissible (event : Value) : Prop where
  valid : validateEvent event = .ok ()
  start : eventType event ≠ some "run_start"
  link : eventType event ≠ some "journal_segment"
  terminal : eventType event = some "run_end" →
    ∃ disposition, event = runEnd disposition ∧ terminalDisposition (runEnd disposition) = true

theorem encodeRecord_ok {runId : String} {sequence : Nat} {event : Value} {bytes : List UInt8}
    (encoded : encodeRecord runId sequence event = .ok bytes) :
    bytes = JournalRecord.line ⟨1, runId, sequence, event⟩ ∧ bytes.length ≤ maxRecordBytes := by
  simp only [encodeRecord, encodeBounded] at encoded
  split at encoded
  · cases encoded
  · rename_i inner bounded
    split at bounded
    · rename_i small
      cases bounded
      cases encoded
      refine ⟨rfl, ?_⟩
      rw [List.length_append, List.length_singleton]
      omega
    · cases bounded

theorem checkedAdd_some {first second sum : Nat} (added : checkedAdd first second = some sum) :
    sum = first + second ∧ first + second ≤ maxU64 := by
  unfold checkedAdd at added
  split at added
  · rename_i bounded
    cases added
    exact ⟨rfl, bounded⟩
  · cases added

theorem empty_room : 0 + maxRecordBytes ≤ maxJournalBytes := by decide

theorem writeRecord_ok {bytes : List UInt8} {sequence : Nat} {written : RunJournal}
    (wrote : journal.writeRecord bytes sequence = .ok written) :
    written = { journal with
      file := journal.file ++ bytes
      sequence := sequence
      bytes := journal.bytes + bytes.length } := by
  unfold RunJournal.writeRecord at wrote
  split at wrote
  · cases wrote
  · cases wrote
    rfl

/-- The record that an event becomes in a journal of these records. -/
def recordOf (runId : String) (records : List JournalRecord) (event : Value) : JournalRecord :=
  ⟨1, runId, records.length + 1, event⟩

theorem Admissible.fits {runId : String} {event : Value} (admissible : Admissible event)
    (started : records ≠ []) (unfinished : Unfinished records)
    (bounded : records.length + 1 ≤ maxU64)
    (size : (recordOf runId records event).line.length ≤ maxRecordBytes) :
    Fits runId records (recordOf runId records event) where
  version := rfl
  runId := rfl
  sequence := rfl
  bounded := bounded
  valid := admissible.valid
  first := ⟨fun start => absurd start admissible.start, fun none => absurd none started⟩
  unfinished := unfinished
  link := fun link => absurd link admissible.link
  terminal := admissible.terminal
  size := size

/-- An event is added to the file at hand, or nothing changes. -/
theorem Kept.appendHere {event : Value} {result : Except String Unit} {next : RunJournal}
    (kept : Kept journal records) (unfinished : Unfinished records)
    (admissible : Admissible event)
    (room : ∀ bytes, encodeRecord journal.runId (records.length + 1) event = .ok bytes →
      journal.bytes + bytes.length + maxRecordBytes ≤ maxJournalBytes)
    (appended : journal.appendHere event = (result, next)) :
    (result.toBool = false ∧ next = journal) ∨
      (result.toBool = true ∧ Kept next (records ++ [recordOf journal.runId records event]) ∧
        next.runId = journal.runId ∧ next.finished = journal.finished) := by
  unfold RunJournal.appendHere at appended
  split at appended
  · cases appended
    exact .inl ⟨rfl, rfl⟩
  · rename_i sequence added
    obtain ⟨rfl, bounded⟩ := checkedAdd_some added
    rw [kept.sequence] at bounded appended
    split at appended
    · cases appended
      exact .inl ⟨rfl, rfl⟩
    · rename_i bytes encoded
      split at appended
      · cases appended
        exact .inl ⟨rfl, rfl⟩
      · rename_i written wrote
        cases appended
        obtain rfl := writeRecord_ok wrote
        have line := (encodeRecord_ok encoded).1
        have open_file : JournalRecord.closes (recordOf journal.runId records event) = false := by
          simpa [JournalRecord.closes, recordOf] using admissible.link
        refine .inr ⟨rfl, ?_, rfl, rfl⟩
        constructor
        · rw [layout, Segments.files_push_open _ _ kept.files open_file, line]
          rfl
        · rw [links_push, open_file]
          exact kept.segment
        · rw [List.length_append]
          rfl
        · rw [List.length_append, ← kept.bytes]
        · exact room bytes encoded
        · exact kept.closedSizes
        · apply kept.written.push
          apply admissible.fits kept.started unfinished bounded
          rw [recordOf, ← line]
          exact (encodeRecord_ok encoded).2
        · simp

theorem eventType_journalSegment (index : Nat) :
    eventType (journalSegment index) = some "journal_segment" := rfl

theorem validateEvent_journalSegment (index : Nat) :
    validateEvent (journalSegment index) = .ok () := by
  have bounded : ((some "journal_segment").any fun kind : String =>
      identifier kind && Json.utf8Bytes kind.toList ≤ 64) = true := by decide
  rw [validateEvent, eventType_journalSegment, bounded]
  rfl

def linkOf (runId : String) (records : List JournalRecord) : JournalRecord :=
  recordOf runId records (journalSegment (links records + 1))

theorem eventType_linkOf (runId : String) (records : List JournalRecord) :
    eventType (linkOf runId records).event = some "journal_segment" := rfl

theorem linkOf_continues (runId : String) (records : List JournalRecord) :
    eventType (linkOf runId records).event ≠ some "run_end" := by
  rw [eventType_linkOf]
  decide

/-- A rotation adds a link, and leaves the file it links to empty. -/
theorem Kept.rotate {rotated : RunJournal} (kept : Kept journal records)
    (unfinished : Unfinished records) (turned : journal.rotate = .ok rotated) :
    Kept rotated (records ++ [linkOf journal.runId records]) ∧
      rotated.bytes = 0 ∧ rotated.runId = journal.runId ∧ rotated.finished = journal.finished := by
  unfold RunJournal.rotate at turned
  split at turned
  · cases turned
  · rename_i segment linked
    obtain ⟨rfl, few⟩ := checkedAdd_some linked
    split at turned
    · cases turned
    · rename_i sequence added
      obtain ⟨rfl, bounded⟩ := checkedAdd_some added
      rw [kept.sequence, kept.segment] at turned
      rw [kept.sequence] at bounded
      rw [kept.segment] at few
      split at turned
      · cases turned
      · rename_i link encoded
        split at turned
        · cases turned
        · rename_i written wrote
          cases turned
          obtain rfl := writeRecord_ok wrote
          obtain ⟨line, small⟩ := encodeRecord_ok encoded
          have closing : (linkOf journal.runId records).closes = true := rfl
          refine ⟨?_, rfl, rfl, rfl⟩
          constructor
          · rw [layout, Segments.files_push_closing _ _ kept.files closing, line]
            rfl
          · have counted := links_push records (linkOf journal.runId records)
            rw [closing, if_pos rfl] at counted
            exact counted.symm
          · rw [List.length_append]
            rfl
          · rfl
          · exact empty_room
          · intro file member
            rcases List.mem_append.mp member with earlier | last
            · exact kept.closedSizes file earlier
            · rw [List.mem_singleton.mp last, List.length_append, ← kept.bytes]
              have room := kept.room
              omega
          · apply kept.written.push
            constructor
            · rfl
            · rfl
            · rfl
            · exact bounded
            · exact validateEvent_journalSegment _
            · rw [eventType_linkOf]
              exact ⟨fun other => absurd other (by decide), fun none => absurd none kept.started⟩
            · exact unfinished
            · exact fun _ => ⟨rfl, few⟩
            · rw [eventType_linkOf]
              exact fun other => absurd other (by decide)
            · rw [linkOf, recordOf, ← line]
              exact small
          · simp

theorem Unfinished.push {record : JournalRecord} (unfinished : Unfinished records)
    (more : eventType record.event ≠ some "run_end") : Unfinished (records ++ [record]) := by
  intro other member
  rcases List.mem_append.mp member with earlier | last
  · exact unfinished other earlier
  · exact List.mem_singleton.mp last ▸ more

/-- What an append adds to the journal: a link or nothing, and then the event if it succeeds. -/
structure Added (before after : RunJournal) (records : List JournalRecord) (event : Value)
    (ok : Bool) : Prop where
  kept : ∃ front, (front = records ∨
      front = records ++ [linkOf before.runId records]) ∧
    Kept after (if ok then front ++ [recordOf before.runId front event] else front)
  runId : after.runId = before.runId
  finished : after.finished = before.finished

theorem Kept.poison (kept : Kept journal records) : Kept { journal with poisoned := true } records :=
  ⟨kept.files, kept.segment, kept.sequence, kept.bytes, kept.room, kept.closedSizes, kept.written,
    kept.started⟩

/-- An append writes the event behind at most one link, or not at all. -/
theorem Kept.append {event : Value} {result : Except String Unit} {next : RunJournal}
    (kept : Kept journal records) (unfinished : Unfinished records)
    (admissible : Admissible event) (appended : journal.append event = (result, next)) :
    Added journal next records event result.toBool := by
  have unchanged : Added journal journal records event false :=
    ⟨⟨records, .inl rfl, kept⟩, rfl, rfl⟩
  unfold RunJournal.append at appended
  split at appended
  · cases appended
    exact unchanged
  · split at appended
    · cases appended
      exact unchanged
    · rename_i sequence added
      obtain ⟨rfl, bounded⟩ := checkedAdd_some added
      split at appended
      · cases appended
        exact unchanged
      · rename_i bytes encoded
        split at appended
        · split at appended
          · cases appended
            exact ⟨⟨records, .inl rfl, kept.poison⟩, rfl, rfl⟩
          · rename_i rotated turned
            obtain ⟨linked, empty, sameRun, sameEnd⟩ := kept.rotate unfinished turned
            have room : ∀ bytes,
                encodeRecord rotated.runId ((records ++ [linkOf journal.runId records]).length + 1)
                  event = .ok bytes →
                rotated.bytes + bytes.length + maxRecordBytes ≤ maxJournalBytes := by
              intro bytes encoded
              have small := (encodeRecord_ok encoded).2
              rw [empty]
              simp only [maxRecordBytes, maxJournalBytes] at small ⊢
              omega
            have still := unfinished.push (linkOf_continues journal.runId records)
            rcases linked.appendHere still admissible room appended with
              ⟨failed, rfl⟩ | ⟨succeeded, more, later, ending⟩
            · rw [failed]
              exact ⟨⟨_, .inr rfl, linked⟩, sameRun, sameEnd⟩
            · rw [succeeded]
              rw [sameRun] at more later
              exact ⟨⟨_, .inr rfl, more⟩, later, ending.trans sameEnd⟩
        · rename_i enough
          have room : ∀ bytes, encodeRecord journal.runId (records.length + 1) event = .ok bytes →
              journal.bytes + bytes.length + maxRecordBytes ≤ maxJournalBytes := by
            intro other again
            rw [kept.sequence, again] at encoded
            cases encoded
            omega
          rcases kept.appendHere unfinished admissible room appended with
            ⟨failed, rfl⟩ | ⟨succeeded, more, later, ending⟩
          · rw [failed]
            exact unchanged
          · rw [succeeded]
            exact ⟨⟨_, .inl rfl, more⟩, later, ending⟩

/-- The events of a run other than its lifecycle. -/
def applicationEvents (records : List JournalRecord) : List Value :=
  (records.map (·.event)).filter fun event => !reserved event

theorem applicationEvents_append (front back : List JournalRecord) :
    applicationEvents (front ++ back) = applicationEvents front ++ applicationEvents back := by
  rw [applicationEvents, List.map_append, List.filter_append]
  rfl

theorem applicationEvents_reserved {record : JournalRecord} (lifecycle : reserved record.event = true) :
    applicationEvents [record] = [] := by
  simp [applicationEvents, lifecycle]

theorem applicationEvents_other {record : JournalRecord} (other : reserved record.event = false) :
    applicationEvents [record] = [record.event] := by
  simp [applicationEvents, other]

theorem reserved_journalSegment (index : Nat) : reserved (journalSegment index) = true := rfl

/-- What is recorded follows the journal's records, behind at most one link. -/
theorem Added.application {before after : RunJournal} {event : Value} {ok : Bool}
    (added : Added before after records event ok) (unfinished : Unfinished records)
    (other : reserved event = false) :
    ∃ later, records <+: later ∧ Kept after later ∧ Unfinished later ∧
      applicationEvents later = applicationEvents records ++ if ok then [event] else [] := by
  obtain ⟨front, origin, kept⟩ := added.kept
  have begun : records <+: front := by
    rcases origin with rfl | rfl
    · exact List.prefix_rfl
    · exact List.prefix_append ..
  have still : Unfinished front := by
    rcases origin with rfl | rfl
    · exact unfinished
    · exact unfinished.push (linkOf_continues before.runId records)
  have same : applicationEvents front = applicationEvents records := by
    rcases origin with rfl | rfl
    · rfl
    · rw [applicationEvents_append,
        applicationEvents_reserved (reserved_journalSegment _), List.append_nil]
  cases ok with
  | false => exact ⟨front, begun, kept, still, by simp [same]⟩
  | true =>
      refine ⟨_, begun.trans (List.prefix_append ..), kept, ?_, ?_⟩
      · apply still.push
        intro ending
        simp [reserved, recordOf] at other ending
        rw [ending] at other
        exact absurd other (by decide)
      · rw [if_pos rfl, applicationEvents_append, same,
          @applicationEvents_other (recordOf before.runId front event) other]
        rfl

theorem validateEvent_type {event : Value} (valid : validateEvent event = .ok ()) :
    ∃ kind, eventType event = some kind := by
  unfold validateEvent at valid
  split at valid
  · rename_i holds
    rw [Bool.and_eq_true] at holds
    cases named : eventType event with
    | none => simp [named] at holds
    | some kind => exact ⟨kind, rfl⟩
  · cases valid

/-- An application event that passes its checks can follow the start of a run. -/
theorem admissible_application {event : Value} (valid : validateEvent event = .ok ())
    (other : reserved event = false) : Admissible event := by
  obtain ⟨kind, named⟩ := validateEvent_type valid
  simp only [reserved, named, Option.any_some, Bool.or_eq_false_iff, beq_eq_false_iff_ne] at other
  constructor
  · exact valid
  · rw [named]
    exact fun same => other.1.1 (Option.some.inj same)
  · rw [named]
    exact fun same => other.2 (Option.some.inj same)
  · rw [named]
    exact fun same => absurd (Option.some.inj same) other.1.2

/-- Recording an event adds it where it is accepted, and at most a link where it is not. -/
theorem Kept.record {event : Json.Document fromSlice} {result : Except String Unit} {next : RunJournal}
    (reads : Json.Reads fromSlice) (kept : Kept journal records) (unfinished : Unfinished records)
    (recorded : journal.record fromSlice event.val = (result, next)) :
    ∃ later, records <+: later ∧ Kept next later ∧ Unfinished later ∧
      next.runId = journal.runId ∧
      applicationEvents later =
        applicationEvents records ++ if result.toBool then [event.val] else [] := by
  have unchanged : ∃ later, records <+: later ∧ Kept journal later ∧ Unfinished later ∧
      journal.runId = journal.runId ∧
      applicationEvents later = applicationEvents records ++ [] :=
    ⟨records, List.prefix_rfl, kept, unfinished, rfl, (List.append_nil _).symm⟩
  simp only [RunJournal.record, encodeBounded] at recorded
  split at recorded
  · cases recorded
    exact unchanged
  · rename_i encoded bounded
    split at bounded
    · cases bounded
      rw [reads.encode event.property] at recorded
      split at recorded
      · cases recorded
        exact unchanged
      · rename_i parsed read
        split at read
        · cases read
          split at recorded
          · cases recorded
            exact unchanged
          · rename_i valid
            split at recorded
            · cases recorded
              exact unchanged
            · rename_i other
              rw [Bool.not_eq_true] at other
              have added := kept.append unfinished
                (admissible_application valid other) recorded
              obtain ⟨later, begun, held, still, same⟩ := added.application unfinished other
              exact ⟨later, begun, held, still, added.runId, same⟩
        · cases read
    · cases bounded

theorem recordAll_subset (journal : RunJournal) (events : List Value) :
    (RunJournal.recordAll fromSlice journal events).1 ⊆ events := by
  induction events generalizing journal with
  | nil => exact List.Subset.refl _
  | cons event rest ih =>
      rw [RunJournal.recordAll]
      split
      · exact List.subset_cons_of_subset event (ih _)
      · exact List.cons_subset_cons event (ih _)

/-- After any number of events, the journal holds the accepted ones in order. -/
theorem Kept.recordAll (reads : Json.Reads fromSlice) (events : List (Json.Document fromSlice))
    (kept : Kept journal records) (unfinished : Unfinished records) :
    ∃ later, records <+: later ∧
      Kept (RunJournal.recordAll fromSlice journal (events.map (·.val))).2 later ∧
      Unfinished later ∧
      (RunJournal.recordAll fromSlice journal (events.map (·.val))).2.runId = journal.runId ∧
      applicationEvents later = applicationEvents records ++
        (RunJournal.recordAll fromSlice journal (events.map (·.val))).1 := by
  induction events generalizing journal records with
  | nil => exact ⟨records, List.prefix_rfl, kept, unfinished, rfl, (List.append_nil _).symm⟩
  | cons event rest ih =>
      rw [List.map_cons, RunJournal.recordAll]
      cases recorded : journal.record fromSlice event.val with
      | mk result next =>
          obtain ⟨middle, begun, held, still, sameRun, same⟩ :=
            kept.record reads unfinished recorded
          obtain ⟨later, further, holds, open_end, run, events⟩ := ih held still
          rw [same] at events
          cases result with
          | error message =>
              exact ⟨later, begun.trans further, holds, open_end, run.trans sameRun,
                by simpa [Except.toBool] using events⟩
          | ok done =>
              exact ⟨later, begun.trans further, holds, open_end, run.trans sameRun,
                by simpa [Except.toBool] using events⟩

theorem validateEvent_runStart (metadata : Value) :
    validateEvent (runStart metadata) = .ok () := by
  have bounded : ((some "run_start").any fun kind : String =>
      identifier kind && Json.utf8Bytes kind.toList ≤ 64) = true := by decide
  have named : eventType (runStart metadata) = some "run_start" := rfl
  rw [validateEvent, named, bounded]
  rfl

theorem eventType_runEnd (disposition : String) :
    eventType (runEnd disposition) = some "run_end" := rfl

theorem admissible_runEnd {disposition : String}
    (bounded : terminalDisposition (runEnd disposition) = true) :
    Admissible (runEnd disposition) where
  valid := by
    have bounded : ((some "run_end").any fun kind : String =>
        identifier kind && Json.utf8Bytes kind.toList ≤ 64) = true := by decide
    rw [validateEvent, eventType_runEnd, bounded]
    rfl
  start := by
    rw [eventType_runEnd]
    decide
  link := by
    rw [eventType_runEnd]
    decide
  terminal := fun _ => ⟨disposition, rfl, bounded⟩

theorem create_kept {runId : String} {metadata : Value}
    (created : RunJournal.create runId metadata = .ok journal) :
    Kept journal [recordOf runId [] (runStart metadata)] ∧
      Unfinished [recordOf runId [] (runStart metadata)] ∧ journal.runId = runId ∧
      identifier runId = true := by
  unfold RunJournal.create at created
  split at created
  · cases created
  · rename_i accepted
    split at created
    · cases created
    · rename_i initial encoded
      obtain rfl := writeRecord_ok created
      obtain ⟨line, small⟩ := encodeRecord_ok encoded
      simp only [Bool.or_eq_true, Bool.not_eq_true', not_or, Bool.not_eq_false] at accepted
      have named : eventType (runStart metadata) = some "run_start" := rfl
      refine ⟨?_, ?_, rfl, accepted.1⟩
      · constructor
        · rw [line]
          exact @Segments.files_push_open _ _ JournalRecord.line JournalRecord.closes
            [] [] [] rfl _ rfl
        · rfl
        · rfl
        · exact Nat.zero_add _
        · simp only [maxRecordBytes, maxJournalBytes] at small ⊢
          omega
        · intro file member
          cases member
        · apply (Written.nil runId).push
          constructor
          · rfl
          · rfl
          · rfl
          · decide
          · exact validateEvent_runStart metadata
          · exact ⟨fun _ => rfl, fun _ => named⟩
          · intro earlier member
            cases member
          · rw [recordOf, named]
            exact fun other => absurd other (by decide)
          · rw [recordOf, named]
            exact fun other => absurd other (by decide)
          · rw [recordOf, List.length_nil, ← line]
            exact small
        · simp
      · intro record member
        rw [List.mem_singleton.mp member, recordOf, named]
        decide

theorem Kept.finish {disposition : String} {next : RunJournal} (kept : Kept journal records)
    (unfinished : Unfinished records)
    (finished : journal.finish disposition = (.ok (), next)) :
    ∃ front, records <+: front ∧ next.runId = journal.runId ∧
      Kept next (front ++ [recordOf journal.runId front (runEnd disposition)]) ∧
      applicationEvents front = applicationEvents records := by
  unfold RunJournal.finish at finished
  split at finished
  · cases finished
  · rename_i accepted
    simp only [Bool.or_eq_true, Bool.not_eq_true', decide_eq_true_eq, not_or, Bool.not_eq_false,
      Nat.not_lt] at accepted
    have bounded : terminalDisposition (runEnd disposition) = true := by
      have disposed : (((runEnd disposition).get? "data").bind (·.get? "disposition")).bind
          Value.asStr? = some disposition := rfl
      rw [terminalDisposition, disposed, Option.any_some, accepted.1, Bool.true_and]
      exact decide_eq_true accepted.2
    split at finished
    · cases finished
    · rename_i appended written
      split at finished
      · cases finished
      · cases finished
        have added := kept.append unfinished (admissible_runEnd bounded) written
        obtain ⟨front, origin, held⟩ := added.kept
        rw [show (Except.ok () : Except String Unit).toBool = true from rfl, if_pos rfl] at held
        have held : Kept { appended with finished := true }
            (front ++ [recordOf journal.runId front (runEnd disposition)]) :=
          ⟨held.files, held.segment, held.sequence, held.bytes, held.room, held.closedSizes,
            held.written, held.started⟩
        rcases origin with rfl | rfl
        · exact ⟨front, List.prefix_rfl, added.runId, held, rfl⟩
        · refine ⟨_, List.prefix_append .., added.runId, held, ?_⟩
          rw [applicationEvents_append,
            applicationEvents_reserved (reserved_journalSegment _), List.append_nil]

theorem Kept.small (kept : Kept journal records) :
    ∀ file ∈ journal.files, file.length ≤ maxJournalBytes := by
  intro file member
  rcases List.mem_append.mp member with earlier | last
  · exact kept.closedSizes file earlier
  · rw [List.mem_singleton.mp last, ← kept.bytes]
    exact Nat.le_trans (Nat.le_add_right ..) kept.room

end Kvist.Observation
