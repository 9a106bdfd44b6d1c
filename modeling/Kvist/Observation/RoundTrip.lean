import Kvist.Json.Parser
import Kvist.Observation.FollowerProperties

/-!
# From a run to its followers

A finished journal is read back by every follower exactly where no event nests too deep for its
record. The writer parses an event alone, and the record around it adds one more object.
-/

set_option autoImplicit false

namespace Kvist.Observation

open Json (Value)

variable {fromSlice : List UInt8 → Option Value} {files : List (List UInt8)} {runId : String}
  {records : List JournalRecord}

def follow (fromSlice : List UInt8 → Option Value) (files : List (List UInt8))
    (schedule : List (List Nat)) : Except String (List JournalRecord × JournalFollower) :=
  match JournalFollower.open files with
  | .error message => .error message
  | .ok follower => follower.polls fromSlice files schedule

/-- The follower has these records before it, in order, and the last of them ends it. -/
structure Followed (fromSlice : List UInt8 → Option Value) (files : List (List UInt8))
    (records : List JournalRecord) (schedule : List (List Nat)) : Prop where
  reads : ∃ yielded follower, follow fromSlice files schedule = .ok (yielded, follower) ∧
    yielded <+: records ∧
    (follower.finished = true ↔ yielded = records) ∧
    (follower.finished = true → follower.endOfInput = .ok ())

/-- Every follower reads records numbered from one with exactly these application events, never
fails, and can reach the end of them. -/
def ReadBack (fromSlice : List UInt8 → Option Value) (files : List (List UInt8))
    (accepted : List Value) : Prop :=
  ∃ records : List JournalRecord,
    applicationEvents records = accepted ∧
    records.map (·.sequence) = List.range' 1 records.length ∧
    (∀ schedule, Followed fromSlice files records schedule) ∧
    ∃ schedule follower, follow fromSlice files schedule = .ok (records, follower) ∧
      follower.finished = true

/-- The journal of a whole run, as its files hold it. -/
structure Concluded (fromSlice : List UInt8 → Option Value) (runId : String) (metadata : Value)
    (files : List (List UInt8)) (accepted : List Value) (records : List JournalRecord) :
    Prop where
  stored : Stored fromSlice files runId records
  application : applicationEvents records = accepted
  start : records.head? = some (recordOf runId [] (runStart metadata))
  ending : ∃ front last, records = front ++ [last] ∧ eventType last.event = some "run_end"

/-- What the record of a run is about, other than an application event. -/
inductive Lifecycle (metadata : Value) : Value → Prop where
  | start : Lifecycle metadata (runStart metadata)
  | link {index : Nat} : index ≤ maxU64 → Lifecycle metadata (journalSegment index)
  | terminal (disposition : String) : Lifecycle metadata (runEnd disposition)

theorem Written.lifecycle {metadata : Value} (written : Written runId records)
    (start : records.head? = some (recordOf runId [] (runStart metadata)))
    {record : JournalRecord} (member : record ∈ records) :
    record.event ∈ applicationEvents records ∨ Lifecycle metadata record.event := by
  obtain ⟨before, after, same⟩ := List.append_of_mem member
  have fits := written before record after same
  cases lifecycle : reserved record.event with
  | false =>
      left
      rw [applicationEvents, List.mem_filter]
      exact ⟨List.mem_map_of_mem member, by rw [lifecycle]; rfl⟩
  | true =>
      right
      obtain ⟨kind, named⟩ := validateEvent_type fits.valid
      simp only [reserved, named, Option.any_some, Bool.or_eq_true, beq_iff_eq] at lifecycle
      rcases lifecycle with (rfl | rfl) | rfl
      · obtain rfl := fits.first.mp named
        rw [same] at start
        obtain rfl := Option.some.inj start
        exact .start
      · obtain ⟨disposition, event, -⟩ := fits.terminal named
        rw [event]
        exact .terminal disposition
      · obtain ⟨event, few⟩ := fits.link named
        rw [event]
        exact .link few

theorem Lifecycle.readable {metadata event : Value} (reads : Json.Reads fromSlice)
    (given : Json.Readable fromSlice metadata) (lifecycle : Lifecycle metadata event) :
    Json.Readable fromSlice event := by
  have typed (kind : String) {data : Value} (inner : Json.Readable fromSlice data) :
      Json.Readable fromSlice (.object [("type", .string kind), ("data", data)]) := by
    have distinct : ["type", "data"].Nodup := by decide
    refine Json.readable_object distinct fun member inside => ?_
    simp only [List.mem_cons, List.not_mem_nil, or_false] at inside
    rcases inside with rfl | rfl
    · exact Json.readable_string kind
    · exact inner
  have single (name : String) {value : Value} (inner : Json.Readable fromSlice value) :
      Json.Readable fromSlice (.object [(name, value)]) :=
    Json.readable_object (by simp) fun member inside =>
      List.mem_singleton.mp inside ▸ inner
  cases lifecycle with
  | start => exact typed _ given
  | link few =>
      exact typed _ (single _ (Json.readable_natural reads (Nat.lt_succ_of_le few)))
  | terminal disposition => exact typed _ (single _ (Json.readable_string disposition))

theorem wholeRun_concluded {metadata : Value} {events : List (Json.Document fromSlice)}
    {disposition : String} {accepted : List Value} {journal : RunJournal}
    (reads : Json.Reads fromSlice) (given : Json.Readable fromSlice metadata)
    (ran : RunJournal.wholeRun fromSlice runId metadata (events.map (·.val)) disposition =
      some (accepted, journal)) :
    ∃ records, Concluded fromSlice runId metadata journal.files accepted records := by
  unfold RunJournal.wholeRun at ran
  split at ran
  · cases ran
  · rename_i created opened
    obtain ⟨kept, unfinished, sameRun, valid⟩ := create_kept opened
    obtain ⟨middle, begun, held, still, run, application⟩ :=
      kept.recordAll reads events unfinished
    split at ran
    · cases ran
    · rename_i finished closed
      cases ran
      obtain ⟨front, further, unchanged, last, same⟩ := held.finish still closed
      rw [run.trans sameRun] at unchanged last
      have written := unchanged ▸ last.written
      have events_same : applicationEvents (front ++ [recordOf runId front (runEnd disposition)]) =
          (RunJournal.recordAll fromSlice created (events.map (·.val))).1 := by
        rw [applicationEvents_append, same, application, applicationEvents_reserved rfl,
          applicationEvents_reserved rfl, List.append_nil, List.nil_append]
      have start : (front ++ [recordOf runId front (runEnd disposition)]).head? =
          some (recordOf runId [] (runStart metadata)) := by
        obtain ⟨others, rfl⟩ := begun.trans further
        rfl
      refine ⟨_, ⟨last.files.symm, valid, written, last.small, ?_⟩, events_same, start,
        front, _, rfl, rfl⟩
      intro record member
      rcases written.lifecycle start member with event | lifecycle
      · rw [events_same] at event
        obtain ⟨document, -, whole⟩ := List.mem_map.mp (recordAll_subset created _ event)
        exact whole ▸ document.property
      · exact lifecycle.readable reads given

theorem depth_toJson (record : JournalRecord) : record.toJson.depth = record.event.depth + 1 := by
  simp [JournalRecord.toJson, Value.depth, Value.depthOfMembers, Json.natural]

theorem depth_runStart (metadata : Value) : (runStart metadata).depth = metadata.depth + 1 := by
  simp [runStart, Value.depth, Value.depthOfMembers]

theorem Concluded.shallow_iff {metadata : Value} {accepted : List Value}
    (concluded : Concluded fromSlice runId metadata files accepted records) :
    (∀ record ∈ records, Shallow record) ↔
      metadata.depth ≤ 125 ∧ ∀ event ∈ accepted, event.depth ≤ 126 := by
  constructor
  · intro shallow
    refine ⟨?_, ?_⟩
    · have first := shallow _ (List.mem_of_head? concluded.start)
      rw [Shallow, depth_toJson, recordOf, depth_runStart] at first
      omega
    · intro event member
      rw [← concluded.application, applicationEvents, List.mem_filter, List.mem_map] at member
      obtain ⟨⟨record, present, rfl⟩, -⟩ := member
      have bounded := shallow record present
      rw [Shallow, depth_toJson] at bounded
      omega
  · rintro ⟨initial, others⟩ record member
    rw [Shallow, depth_toJson]
    rcases concluded.stored.written.lifecycle concluded.start member with event | lifecycle
    · have bounded := others _ (concluded.application ▸ event)
      omega
    · generalize record.event = event at lifecycle ⊢
      cases lifecycle with
      | start =>
          rw [depth_runStart]
          omega
      | link few => simp [journalSegment, Value.depth, Value.depthOfMembers, Json.natural]
      | terminal disposition => simp [runEnd, Value.depth, Value.depthOfMembers]

theorem Concluded.open {metadata : Value} {accepted : List Value}
    (concluded : Concluded fromSlice runId metadata files accepted records) :
    ∃ follower, JournalFollower.open files = .ok follower ∧ follower.pending = [] ∧
      Synced files runId follower [] records := by
  have laid := concluded.stored.laid
  obtain ⟨first, rest, same⟩ : ∃ first rest, layout records = first :: rest := ⟨_, _, rfl⟩
  rw [same] at laid
  have bounded := concluded.stored.small first (laid ▸ List.mem_cons_self)
  obtain ⟨follower, opened, synced⟩ := @Synced.open runId _ _ _ same bounded
  rw [laid]
  cases opened
  exact ⟨_, rfl, rfl, synced⟩

/-- The end of the run is behind a follower exactly when it has yielded all records. -/
theorem Concluded.finished_iff {metadata : Value} {accepted : List Value}
    (concluded : Concluded fromSlice runId metadata files accepted records) {follower : JournalFollower}
    {before after : List JournalRecord} (same : records = before ++ after)
    (synced : Synced files runId follower before after) :
    follower.finished = true ↔ before = records := by
  constructor
  · intro finished
    have stored := concluded.stored
    rw [same] at stored
    rw [same, synced.nothing_after stored finished, List.append_nil]
  · intro all
    obtain ⟨front, last, whole, ending⟩ := concluded.ending
    exact synced.ended ⟨last, by rw [all, whole]; simp, ending⟩

theorem Synced.endOfInput {follower : JournalFollower} {before : List JournalRecord}
    (synced : Synced files runId follower before []) (finished : follower.finished = true) :
    follower.endOfInput = .ok () := by
  have nothing : follower.pending = [] := by
    cases waits : follower.nextSegment with
    | true => exact (synced.waiting waits).1
    | false => exact (List.append_eq_nil_iff.mp (synced.reading waits).1).1
  simp [JournalFollower.endOfInput, synced.alive, nothing, finished]

/-- A finished journal can be read to its end exactly where all of its records can. -/
theorem Concluded.readBack_iff {metadata : Value} {accepted : List Value}
    (reads : Json.Reads fromSlice) (concluded : Concluded fromSlice runId metadata files accepted records) :
    ReadBack fromSlice files accepted ↔ ∀ record ∈ records, Shallow record := by
  obtain ⟨follower, opened, begun, synced⟩ := concluded.open
  have stored : Stored fromSlice files runId ([] ++ records) := concluded.stored
  have following (schedule : List (List Nat)) : follow fromSlice files schedule =
      follower.polls fromSlice files schedule := by
    rw [follow, opened]
  constructor
  · intro ⟨others, _, _, _, schedule, last, finishes, finished⟩
    have yields := synced.polls reads schedule stored
    rw [following] at finishes
    rw [finishes] at yields
    obtain ⟨rest, same, shallow, later⟩ := yields
    rw [List.nil_append] at later
    have all := (concluded.finished_iff same later).mp finished
    exact all ▸ shallow
  · intro shallow
    refine ⟨records, concluded.application, ?_, ?_, ?_⟩
    · apply List.ext_getElem
      · simp
      · intro index inside _
        rw [List.length_map] at inside
        have fits := stored.written (records.take index) records[index] (records.drop (index + 1))
          (by rw [List.nil_append, ← List.drop_eq_getElem_cons inside, List.take_append_drop])
        rw [List.getElem_map, fits.sequence, List.length_take, Nat.min_eq_left (by omega),
          List.getElem_range', Nat.one_mul, Nat.add_comm]
    · intro schedule
      have yields := synced.polls reads schedule stored
      constructor
      rw [following]
      cases result : follower.polls fromSlice files schedule with
      | error message =>
          rw [result] at yields
          obtain ⟨record, member, deep⟩ := yields
          exact absurd (shallow record member) deep
      | ok read =>
          rw [result] at yields
          obtain ⟨rest, same, -, later⟩ := yields
          rw [List.nil_append] at later
          have all := concluded.finished_iff same later
          refine ⟨_, _, rfl, ⟨rest, same.symm⟩, all, ?_⟩
          intro finished
          have whole := concluded.stored
          rw [same] at whole
          obtain rfl := later.nothing_after whole finished
          exact later.endOfInput finished
    · obtain ⟨last, finishes, later⟩ := synced.polls_all reads stored begun shallow
      rw [← following] at finishes
      refine ⟨_, last, finishes, ?_⟩
      exact (concluded.finished_iff (List.append_nil _).symm later).mpr rfl

/-- Every follower of a finished journal reads back the accepted events exactly where the metadata
and the events leave room for the objects that are put around them. -/
theorem journal_round_trip (reads : Json.Reads fromSlice) (metadata : Json.Document fromSlice)
    (events : List (Json.Document fromSlice)) (disposition : String) (accepted : List Value)
    (journal : RunJournal)
    (ran : RunJournal.wholeRun fromSlice runId metadata.val (events.map (·.val)) disposition =
      some (accepted, journal)) :
    ReadBack fromSlice journal.files accepted ↔
      metadata.val.depth ≤ 125 ∧ ∀ event ∈ accepted, event.depth ≤ 126 := by
  obtain ⟨records, concluded⟩ := wholeRun_concluded reads metadata.property ran
  rw [concluded.readBack_iff reads, concluded.shallow_iff]

/-- A run depends on the parser at the events that are recorded only. -/
theorem wholeRun_congr {other : List UInt8 → Option Value} {metadata : Value} {events : List Value}
    {disposition : String}
    (same : ∀ event ∈ events, fromSlice (Json.encode event) = other (Json.encode event)) :
    RunJournal.wholeRun fromSlice runId metadata events disposition =
      RunJournal.wholeRun other runId metadata events disposition := by
  have recorded (journal : RunJournal) (event : Value) (member : event ∈ events) :
      journal.record fromSlice event = journal.record other event := by
    simp only [RunJournal.record, encodeBounded]
    split
    · rfl
    · rename_i encoded bounded
      split at bounded
      · cases bounded
        rw [same event member]
      · cases bounded
  have together (journal : RunJournal) (some_events : List Value) (inside : some_events ⊆ events) :
      RunJournal.recordAll fromSlice journal some_events =
        RunJournal.recordAll other journal some_events := by
    induction some_events generalizing journal with
    | nil => rfl
    | cons event rest ih =>
        have further := fun journal => ih journal fun _ member =>
          inside (List.mem_cons_of_mem _ member)
        simp only [RunJournal.recordAll, recorded journal event (inside List.mem_cons_self),
          further]
  unfold RunJournal.wholeRun
  split
  · rfl
  · rw [together _ events (List.Subset.refl _)]

theorem wholeRun_single (reads : Json.Reads fromSlice) (event : Json.Document fromSlice)
    (readable : event.val.depth < 128) (metadata : Value) (disposition : String) :
    RunJournal.wholeRun fromSlice runId metadata [event.val] disposition =
      RunJournal.wholeRun (fun _ => some event.val) runId metadata [event.val] disposition := by
  apply wholeRun_congr
  intro other member
  rw [List.mem_singleton.mp member, reads.encode event.property, if_pos readable]

def nestedArrays : Nat → Value
  | 0 => .null
  | count + 1 => .array [nestedArrays count]

def nestedEvent (count : Nat) : Value :=
  .object [("type", .string "observation"), ("data", nestedArrays count)]

theorem readable_nestedArrays (count : Nat) : Json.Readable fromSlice (nestedArrays count) := by
  induction count with
  | zero => exact Json.readable_null
  | succ count ih =>
      exact Json.readable_array fun item member => List.mem_singleton.mp member ▸ ih

theorem readable_nestedEvent (count : Nat) : Json.Readable fromSlice (nestedEvent count) := by
  have distinct : ["type", "data"].Nodup := by decide
  refine Json.readable_object distinct fun member inside => ?_
  simp only [List.mem_cons, List.not_mem_nil, or_false] at inside
  rcases inside with rfl | rfl
  · exact Json.readable_string _
  · exact readable_nestedArrays count

def shortEvent : Json.Document Json.parseSlice := ⟨nestedEvent 2, readable_nestedEvent 2⟩

def deepEvent : Json.Document Json.parseSlice := ⟨nestedEvent 126, readable_nestedEvent 126⟩

theorem readable_empty : Json.Readable fromSlice (.object []) :=
  Json.readable_object List.nodup_nil nofun

theorem journal_round_trip_shortEvent :
    ∃ accepted journal,
      RunJournal.wholeRun Json.parseSlice "run" (.object []) [shortEvent.val] "done" =
        some (accepted, journal) ∧
      ReadBack Json.parseSlice journal.files accepted := by
  have ran := @wholeRun_single _ "run" Json.parseSlice_reads shortEvent (by decide)
    (.object []) "done"
  have ends : (RunJournal.wholeRun (fun _ => some shortEvent.val) "run" (.object [])
      [shortEvent.val] "done").any (fun read => read.1.all fun event => event.depth ≤ 126) =
        true := by decide
  obtain ⟨⟨accepted, journal⟩, computed, shallow⟩ := (Option.any_eq_true _ _).mp ends
  have ran := ran.trans computed
  refine ⟨accepted, journal, ran, ?_⟩
  apply (journal_round_trip Json.parseSlice_reads ⟨.object [], readable_empty⟩ [shortEvent] "done" accepted
    journal ran).mpr
  exact ⟨by decide, by simpa using shallow⟩

/-- An event can be accepted that no follower gets past. -/
theorem deepEvent_accepted :
    ∃ accepted journal,
      RunJournal.wholeRun Json.parseSlice "run" (.object []) [deepEvent.val] "done" =
        some (accepted, journal) ∧
      ¬ReadBack Json.parseSlice journal.files accepted := by
  have ran := @wholeRun_single _ "run" Json.parseSlice_reads deepEvent (by decide +kernel)
    (.object []) "done"
  have ends : (RunJournal.wholeRun (fun _ => some deepEvent.val) "run" (.object [])
      [deepEvent.val] "done").any (fun read => read.1.any fun event => 126 < event.depth) =
        true := by decide +kernel
  obtain ⟨⟨accepted, journal⟩, computed, deep⟩ := (Option.any_eq_true _ _).mp ends
  have ran := ran.trans computed
  refine ⟨accepted, journal, ran, ?_⟩
  obtain ⟨records, concluded⟩ :=
    @wholeRun_concluded _ _ (.object []) [deepEvent] _ _ _ Json.parseSlice_reads readable_empty ran
  rw [concluded.readBack_iff Json.parseSlice_reads, concluded.shallow_iff]
  intro shallow
  obtain ⟨event, member, above⟩ := List.any_eq_true.mp deep
  have below := shallow.2 event member
  simp only [decide_eq_true_eq] at above
  omega

end Kvist.Observation
