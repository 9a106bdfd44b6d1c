import Kvist.Observation.JournalProperties

/-!
# What a follower yields

However its reads are divided, a follower stands between two parts of a journal's records: it
has yielded the first part, and what is left of the files is the second part without a beginning
of its first line. It fails at a record that nests too deep for the parser, and nowhere else.
-/

set_option autoImplicit false

namespace Kvist.Observation

open Json (Value)

variable {fromSlice : List UInt8 → Option Value} {files : List (List UInt8)}
  {follower : JournalFollower} {runId : String} {before after : List JournalRecord}
  {record : JournalRecord}

/-- The parser reads the line of the record. -/
def Shallow (record : JournalRecord) : Prop := record.toJson.depth < 128

theorem asNatural_natural {bound value : Nat} (small : value ≤ bound) :
    (Json.natural value).asNatural? bound = some value := by
  simp [Json.natural, Value.asNatural?, small]

theorem fromJson_toJson (version : record.schemaVersion ≤ maxU32)
    (sequence : record.sequence ≤ maxU64) :
    JournalRecord.fromJson record.toJson = some record := by
  have readVersion := asNatural_natural version
  have readSequence := asNatural_natural sequence
  simp [JournalRecord.fromJson, JournalRecord.toJson, Value.get?, Value.asStr?, readVersion,
    readSequence]

/-- The follower has yielded the records before and has the records after in front of it. -/
structure Synced (files : List (List UInt8)) (runId : String) (follower : JournalFollower)
    (before after : List JournalRecord) : Prop where
  files : files = layout (before ++ after)
  segment : follower.segment = links before
  runId : follower.runId = if before = [] then none else some runId
  sequence : follower.sequence = before.length
  finished : follower.finished = true → ∃ record ∈ before, eventType record.event = some "run_end"
  ended : (∃ record ∈ before, eventType record.event = some "run_end") → follower.finished = true
  alive : follower.failed = false
  clear : Json.newline ∉ follower.pending
  waiting : follower.nextSegment = true → follower.pending = [] ∧ follower.reader = [] ∧
    ∃ front link, before = front ++ [link] ∧ link.closes = true
  reading : follower.nextSegment = false →
    follower.pending ++ follower.reader =
      (Segments.place JournalRecord.line JournalRecord.closes after).1 ∧
    follower.bytes + follower.reader.length ≤ maxJournalBytes

theorem Synced.open {first : List UInt8} {rest : List (List UInt8)}
    (laid : layout after = first :: rest) (small : first.length ≤ maxJournalBytes) :
    ∃ follower, JournalFollower.open (first :: rest) = .ok follower ∧
      Synced (first :: rest) runId follower [] after := by
  refine ⟨_, rfl, ?_⟩
  constructor
  · exact laid.symm
  · rfl
  · rfl
  · rfl
  · intro ended
    cases ended
  · intro ⟨record, member, _⟩
    cases member
  · rfl
  · exact List.not_mem_nil
  · intro waiting
    cases waiting
  · intro _
    have head : (Segments.place JournalRecord.line JournalRecord.closes after).1 = first :=
      (List.cons.inj laid).1
    exact ⟨head.symm, by simpa using small⟩

/-- Behind a link, the next file is there and nothing else is. -/
theorem Synced.continued (synced : Synced files runId follower before after) (size : Nat)
    (small : ∀ file ∈ files, file.length ≤ maxJournalBytes) :
    ∃ next, follower.continued files size = .ok next ∧ next.nextSegment = false ∧
      next.pending = follower.pending ∧ Synced files runId next before after := by
  unfold JournalFollower.continued
  cases waits : follower.nextSegment with
  | false => exact ⟨follower, rfl, waits, rfl, synced⟩
  | true =>
      obtain ⟨nothing, empty, front, link, rfl, closing⟩ := synced.waiting waits
      have found := @Segments.getElem?_files _ _ JournalRecord.line JournalRecord.closes
        front _ closing after
      have opened : files[follower.segment]? =
          some (Segments.place JournalRecord.line JournalRecord.closes after).1 := by
        rw [synced.files, synced.segment]
        exact found
      rw [empty, List.take_nil, opened]
      refine ⟨_, rfl, rfl, rfl, ?_⟩
      constructor
      · exact synced.files
      · exact synced.segment
      · exact synced.runId
      · exact synced.sequence
      · exact synced.finished
      · exact synced.ended
      · exact synced.alive
      · exact synced.clear
      · intro waiting
        cases waiting
      · intro _
        refine ⟨by rw [nothing]; rfl, ?_⟩
        have bounded := small _ (List.mem_of_getElem? opened)
        simpa using bounded

def JournalFollower.behind (follower : JournalFollower) (runId : String)
    (before : List JournalRecord) (record : JournalRecord) : JournalFollower :=
  { follower with
    pending := []
    runId := some runId
    sequence := before.length + 1
    finished := eventType record.event == some "run_end"
    segment := links (before ++ [record])
    nextSegment := record.closes }

theorem Fits.readable (reads : Json.Reads fromSlice) (fits : Fits runId before record)
    (event : Json.Readable fromSlice record.event) :
    Json.Readable fromSlice record.toJson := by
  have version : record.schemaVersion < 2 ^ 64 := by
    rw [fits.version]
    decide
  have sequence : record.sequence < 2 ^ 64 := by
    rw [fits.sequence]
    exact Nat.lt_succ_of_le fits.bounded
  have distinct : ["schema_version", "run_id", "sequence", "event"].Nodup := by decide
  rw [JournalRecord.toJson]
  refine Json.readable_object distinct fun member inside => ?_
  simp only [List.mem_cons, List.not_mem_nil, or_false] at inside
  rcases inside with rfl | rfl | rfl | rfl
  · exact Json.readable_natural reads version
  · exact Json.readable_string _
  · exact Json.readable_natural reads sequence
  · exact event

/-- A whole line is accepted, unless it nests too deep. -/
theorem accept_line (reads : Json.Reads fromSlice) (valid : identifier runId = true)
    (fits : Fits runId before record) (event : Json.Readable fromSlice record.event)
    (numbered : follower.sequence = before.length)
    (counted : follower.segment = links before)
    (named : follower.runId = if before = [] then none else some runId)
    (here : follower.nextSegment = false) (whole : follower.pending = record.line) :
    follower.accept fromSlice =
      if record.toJson.depth < 128 then .ok (record, follower.behind runId before record)
      else .error "journal record is malformed" := by
  have read := reads.documents ⟨record.toJson, fits.readable reads event⟩ [Json.newline] (by simp)
  have version : record.schemaVersion ≤ maxU32 := by
    rw [fits.version]
    decide
  have bounded : record.sequence ≤ maxU64 := fits.sequence ▸ fits.bounded
  have next : saturatingAdd follower.sequence 1 = record.sequence := by
    rw [numbered, fits.sequence, saturatingAdd, Nat.min_eq_left fits.bounded]
  have sameRun : follower.runId.any (· != record.runId) = false := by
    rw [named, fits.runId]
    split <;> simp
  have kept : some (follower.runId.getD record.runId) = some runId := by
    rw [named, fits.runId]
    split <;> rfl
  have order : ((follower.sequence = 0 && eventType record.event != some "run_start") ||
      (0 < follower.sequence && eventType record.event == some "run_start")) = false := by
    rw [numbered]
    cases before with
    | nil => simp [fits.first.mpr rfl]
    | cons head tail =>
        have other : eventType record.event ≠ some "run_start" := by
          intro start
          exact List.cons_ne_nil _ _ (fits.first.mp start)
        simp [other]
  unfold JournalFollower.accept
  rw [whole, JournalRecord.line, read]
  by_cases shallow : record.toJson.depth < 128
  · rw [if_pos shallow, if_pos shallow, Option.bind_some, fromJson_toJson version bounded]
    have identity : (decide (record.schemaVersion ≠ 1) || !identifier record.runId ||
        decide (record.sequence ≠ saturatingAdd follower.sequence 1) ||
        follower.runId.any (· != record.runId)) = false := by
      rw [fits.version, fits.runId, valid, next, ← fits.runId, sameRun]
      simp
    simp only [fits.valid, identity, order, Bool.false_eq_true, ite_false, kept]
    cases closing : record.closes with
    | true =>
        have link : eventType record.event = some "journal_segment" := by
          simpa [JournalRecord.closes] using closing
        obtain ⟨event, few⟩ := fits.link link
        have added : checkedAdd follower.segment 1 = some (links before + 1) := by
          rw [counted, checkedAdd, if_pos few]
        have more : links (before ++ [record]) = links before + 1 := by
          rw [links_push, closing, if_pos rfl]
        have index : continuationIndex record.event = some (links before + 1) := by
          rw [event]
          exact asNatural_natural few
        simp only [link, added, index, JournalFollower.behind, closing, more, fits.sequence]
        simp
    | false =>
        have other : (eventType record.event == some "journal_segment") = false := closing
        have same : links (before ++ [record]) = links before := by
          rw [links_push, closing, if_neg (by simp), Nat.add_zero]
        have terminal : ((eventType record.event == some "run_end") &&
            !terminalDisposition record.event) = false := by
          by_cases ending : eventType record.event = some "run_end"
          · obtain ⟨disposition, event, disposed⟩ := fits.terminal ending
            rw [event, disposed]
            simp
          · simp [ending]
        simp only [other, terminal, JournalFollower.behind, closing, same, fits.sequence,
          Bool.false_eq_true, ite_false, counted, here]
  · rw [if_neg shallow, if_neg shallow]
    rfl

/-- What is left of a file begins with the line of the next record. -/
theorem place_cons (record : JournalRecord) (rest : List JournalRecord) :
    (Segments.place JournalRecord.line JournalRecord.closes (record :: rest)).1 =
      Json.encode record.toJson ++ Json.newline ::
        if record.closes then []
        else (Segments.place JournalRecord.line JournalRecord.closes rest).1 := by
  rw [Segments.place]
  split
  · rfl
  · rw [JournalRecord.line, List.append_assoc]
    rfl

/-- A piece without the end of a line is kept. -/
theorem Synced.pending {rest : List JournalRecord}
    (synced : Synced files runId follower before (record :: rest))
    (fits : Fits runId before record) (here : follower.nextSegment = false) {size : Nat}
    (middle : (follower.reader.take size).idxOf? Json.newline = none) :
    ∃ next, follower.consume fromSlice (follower.reader.take size) = .ok (none, next) ∧
      next.nextSegment = false ∧ Synced files runId next before (record :: rest) := by
  obtain ⟨left, total⟩ := synced.reading here
  have absent : Json.newline ∉ follower.reader.take size := List.idxOf?_eq_none_iff.mp middle
  have divided := List.take_append_drop size follower.reader
  have inside : (follower.pending ++ follower.reader.take size).length ≤
      (Json.encode record.toJson).length := by
    rw [place_cons, ← divided, ← List.append_assoc] at left
    exact Segments.length_unfinished left fun member =>
      (List.mem_append.mp member).elim synced.clear absent
  have size_line := fits.size
  rw [JournalRecord.line, List.length_append, List.length_singleton] at size_line
  rw [List.length_append] at inside
  have shorter : (follower.reader.take size).length ≤ follower.reader.length :=
    List.length_take_le' ..
  simp only [JournalFollower.consume, middle, Option.elim_none, List.take_length]
  rw [if_neg]
  · refine ⟨_, rfl, here, ?_⟩
    constructor
    · exact synced.files
    · exact synced.segment
    · exact synced.runId
    · exact synced.sequence
    · exact synced.finished
    · exact synced.ended
    · exact synced.alive
    · intro member
      rcases List.mem_append.mp member with early | late
      · exact synced.clear early
      · exact absent late
    · intro waiting
      exact absurd (here.symm.trans waiting) (by decide)
    · intro _
      have dropped : follower.reader.drop (follower.reader.take size).length =
          follower.reader.drop size := by
        rw [List.length_take]
        rcases Nat.le_total size follower.reader.length with enough | few
        · rw [Nat.min_eq_left enough]
        · rw [Nat.min_eq_right few, List.drop_length, List.drop_eq_nil_of_le few]
      refine ⟨?_, ?_⟩
      · change (follower.pending ++ follower.reader.take size) ++
          follower.reader.drop (follower.reader.take size).length = _
        rw [dropped, List.append_assoc, divided, left]
      · change follower.bytes + (follower.reader.take size).length +
          (follower.reader.drop (follower.reader.take size).length).length ≤ _
        rw [List.length_drop]
        omega
  · simp only [Bool.or_eq_true, decide_eq_true_eq, not_or, Nat.not_lt, gt_iff_lt]
    constructor <;> omega

theorem Synced.line (reads : Json.Reads fromSlice) (valid : identifier runId = true)
    {rest : List JournalRecord} (synced : Synced files runId follower before (record :: rest))
    (fits : Fits runId before record) (event : Json.Readable fromSlice record.event)
    (here : follower.nextSegment = false) {size index : Nat}
    (found : (follower.reader.take size).idxOf? Json.newline = some index) :
    if record.toJson.depth < 128 then
      ∃ next, follower.consume fromSlice (follower.reader.take size) = .ok (some record, next) ∧
        next.pending = [] ∧ Synced files runId next (before ++ [record]) rest
    else
      follower.consume fromSlice (follower.reader.take size) =
        .error "journal record is malformed" := by
  obtain ⟨left, total⟩ := synced.reading here
  rw [place_cons] at left
  have bodyClear := Json.newline_encode (fits.readable reads event).wellFormed
  obtain ⟨whole, others⟩ := Segments.take_line left synced.clear bodyClear
    (List.take_prefix size follower.reader) found
  have inside : index < (follower.reader.take size).length :=
    (List.idxOf?_eq_some_iff.mp found).1
  have shorter : (follower.reader.take size).length ≤ follower.reader.length :=
    List.length_take_le' ..
  have length := congrArg List.length whole
  rw [List.length_append, List.length_take, Nat.min_eq_left inside] at length
  have bounded : (Json.encode record.toJson ++ [Json.newline]).length ≤ maxRecordBytes := fits.size
  have room : ¬(decide (follower.pending.length + (index + 1) > maxRecordBytes) ||
      decide (follower.bytes + (index + 1) > maxJournalBytes)) = true := by
    simp only [Bool.or_eq_true, decide_eq_true_eq, not_or, Nat.not_lt, gt_iff_lt]
    constructor <;> omega
  simp only [JournalFollower.consume, found, Option.elim_some]
  rw [if_neg room]
  have accepted := @accept_line _ { follower with
      pending := follower.pending ++ (follower.reader.take size).take (index + 1)
      reader := follower.reader.drop (index + 1)
      bytes := follower.bytes + (index + 1) } _ _ _
    reads valid fits event synced.sequence synced.segment synced.runId here whole
  rw [accepted]
  by_cases shallow : record.toJson.depth < 128
  · rw [if_pos shallow, if_pos shallow]
    refine ⟨_, rfl, rfl, ?_⟩
    constructor
    · rw [List.append_assoc]
      exact synced.files
    · rfl
    · exact (if_neg (by simp)).symm
    · rw [List.length_append]
      rfl
    · intro ending
      exact ⟨record, by simp, by simpa [JournalFollower.behind] using ending⟩
    · intro ⟨other, member, ending⟩
      rcases List.mem_append.mp member with earlier | last
      · exact absurd ending (fits.unfinished other earlier)
      · simpa [JournalFollower.behind] using List.mem_singleton.mp last ▸ ending
    · exact synced.alive
    · exact List.not_mem_nil
    · intro closing
      refine ⟨rfl, ?_, before, record, rfl, closing⟩
      exact others.trans (if_pos closing)
    · intro open_file
      have open_file : record.closes = false := open_file
      refine ⟨others.trans (if_neg (by simp [open_file])), ?_⟩
      change follower.bytes + (index + 1) + (follower.reader.drop (index + 1)).length ≤ _
      rw [List.length_drop]
      omega
  · rw [if_neg shallow, if_neg shallow]

/-- The files of a journal that has been written, with events that the parser can give. -/
structure Stored (fromSlice : List UInt8 → Option Value) (files : List (List UInt8))
    (runId : String) (records : List JournalRecord) : Prop where
  laid : files = layout records
  valid : identifier runId = true
  written : Written runId records
  small : ∀ file ∈ files, file.length ≤ maxJournalBytes
  readable : ∀ record ∈ records, Json.Readable fromSlice record.event

/-- A result that yields the next records, and fails only where one of them nests too deep. -/
def Yields (files : List (List UInt8)) (runId : String) (before after : List JournalRecord) :
    Except String (List JournalRecord × JournalFollower) → Prop
  | .ok (yielded, next) => ∃ rest, after = yielded ++ rest ∧
      (∀ record ∈ yielded, Shallow record) ∧ Synced files runId next (before ++ yielded) rest
  | .error _ => ∃ record ∈ after, ¬Shallow record

theorem Synced.yields (synced : Synced files runId follower before after) :
    Yields files runId before after (.ok ([], follower)) :=
  ⟨after, rfl, fun _ member => (List.not_mem_nil member).elim, by
    rw [List.append_nil]
    exact synced⟩

theorem Yields.more {front rest : List JournalRecord}
    (shallow : ∀ record ∈ front, Shallow record)
    {result : Except String (List JournalRecord × JournalFollower)}
    (yields : Yields files runId (before ++ front) rest result) :
    Yields files runId before (front ++ rest)
      (result.map fun read => (front ++ read.1, read.2)) := by
  cases result with
  | error message =>
      obtain ⟨record, member, deep⟩ := yields
      exact ⟨record, List.mem_append_right _ member, deep⟩
  | ok read =>
      obtain ⟨remaining, rfl, clear, synced⟩ := yields
      refine ⟨remaining, (List.append_assoc ..).symm, ?_, ?_⟩
      · intro record member
        exact (List.mem_append.mp member).elim (shallow record) (clear record)
      · rw [← List.append_assoc]
        exact synced

theorem Synced.nothing_after (stored : Stored fromSlice files runId (before ++ after))
    (synced : Synced files runId follower before after) (finished : follower.finished = true) :
    after = [] := by
  cases after with
  | nil => rfl
  | cons record rest =>
      obtain ⟨ending, member, named⟩ := synced.finished finished
      exact absurd named ((stored.written before record rest rfl).unfinished ending member)

theorem Synced.nothing_left (synced : Synced files runId follower before [])
    (here : follower.nextSegment = false) : follower.reader = [] :=
  (List.append_eq_nil_iff.mp (synced.reading here).1).2

/-- One round of a poll's loop. -/
theorem Synced.consume (reads : Json.Reads fromSlice)
    (stored : Stored fromSlice files runId (before ++ after))
    (synced : Synced files runId follower before after) (here : follower.nextSegment = false)
    {size : Nat} (visible : follower.reader.take size ≠ []) :
    (∃ message, follower.consume fromSlice (follower.reader.take size) = .error message ∧
      ∃ record ∈ after, ¬Shallow record) ∨
    ∃ found next rest, follower.consume fromSlice (follower.reader.take size) = .ok (found, next) ∧
      after = found.toList ++ rest ∧ (∀ record ∈ found, Shallow record) ∧
      Synced files runId next (before ++ found.toList) rest := by
  cases after with
  | nil =>
      rw [synced.nothing_left here, List.take_nil] at visible
      exact absurd rfl visible
  | cons record rest =>
      have fits := stored.written before record rest rfl
      cases found : (follower.reader.take size).idxOf? Json.newline with
      | none =>
          obtain ⟨next, consumed, -, later⟩ :=
            @Synced.pending fromSlice _ _ _ _ _ _ synced fits here _ found
          refine .inr ⟨none, next, record :: rest, consumed, rfl, ?_, ?_⟩
          · intro other member
            cases member
          · rw [Option.toList_none, List.append_nil]
            exact later
      | some index =>
          have outcome := synced.line reads stored.valid fits
            (stored.readable record (by simp)) here found
          by_cases shallow : record.toJson.depth < 128
          · rw [if_pos shallow] at outcome
            obtain ⟨next, consumed, -, later⟩ := outcome
            refine .inr ⟨some record, next, rest, consumed, rfl, ?_, later⟩
            intro other same
            exact Option.some.inj same ▸ shallow
          · rw [if_neg shallow] at outcome
            exact .inl ⟨_, outcome, record, List.mem_cons_self, shallow⟩

/-- However a poll's reads are divided, it yields the next records. -/
theorem Synced.readAvailable (reads : Json.Reads fromSlice) (sizes : List Nat)
    (stored : Stored fromSlice files runId (before ++ after))
    (synced : Synced files runId follower before after) (records : List JournalRecord) :
    ∃ result, Yields files runId before after result ∧
      follower.readAvailable fromSlice files sizes records =
        result.map fun read => (records ++ read.1, read.2) := by
  have stays : ∀ follower, Synced files runId follower before after →
      ∃ result, Yields files runId before after result ∧
        .ok (records, follower) = result.map fun read => (records ++ read.1, read.2) := by
    intro follower synced
    refine ⟨_, synced.yields, ?_⟩
    rw [Except.map, List.append_nil]
  induction sizes generalizing follower before after records with
  | nil =>
      rw [JournalFollower.readAvailable]
      split
      · exact stays follower synced
      · obtain ⟨next, continued, -, -, later⟩ := synced.continued 0 stored.small
        rw [continued]
        exact stays next later
  | cons size sizes ih =>
      rw [JournalFollower.readAvailable]
      split
      · exact stays follower synced
      · obtain ⟨next, continued, here, -, later⟩ := synced.continued size stored.small
        rw [continued]
        simp only
        split
        · exact stays next later
        · rename_i visible
          have visible : next.reader.take size ≠ [] := by simpa using visible
          split
          · rename_i finished
            obtain rfl := later.nothing_after stored finished
            rw [later.nothing_left here, List.take_nil] at visible
            exact absurd rfl visible
          · rcases later.consume reads stored here visible with
              ⟨message, failed, deep⟩ | ⟨found, last, rest, consumed, rfl, shallow, more⟩
            · rw [failed]
              exact ⟨.error message, deep, rfl⟩
            · rw [consumed]
              have whole : Stored fromSlice files runId ((before ++ found.toList) ++ rest) := by
                rw [List.append_assoc]
                exact stored
              obtain ⟨result, yields, read⟩ :=
                ih whole more (records ++ found.toList) fun follower synced =>
                  ⟨_, synced.yields, by rw [Except.map, List.append_nil]⟩
              have clear : ∀ record ∈ found.toList, Shallow record := by
                intro record member
                exact shallow record (Option.mem_toList.mp member)
              refine ⟨_, yields.more clear, ?_⟩
              simp only [read]
              cases result with
              | error message => rfl
              | ok read => simp only [Except.map, List.append_assoc]

/-- However the reads of all polls are divided, they yield the next records. -/
theorem Synced.polls (reads : Json.Reads fromSlice) (schedule : List (List Nat))
    (stored : Stored fromSlice files runId (before ++ after))
    (synced : Synced files runId follower before after) :
    Yields files runId before after (follower.polls fromSlice files schedule) := by
  induction schedule generalizing follower before after with
  | nil => exact synced.yields
  | cons sizes rest ih =>
      obtain ⟨result, yields, read⟩ := synced.readAvailable reads sizes stored []
      rw [JournalFollower.polls, JournalFollower.poll, synced.alive, if_neg (by simp), read]
      cases result with
      | error message => exact yields
      | ok yielding =>
          obtain ⟨yielded, next⟩ := yielding
          obtain ⟨remaining, rfl, shallow, later⟩ := yields
          rw [← List.append_assoc] at stored
          have others := (ih stored later).more shallow
          simp only [Except.map, List.nil_append]
          revert others
          cases next.polls fromSlice files rest with
          | error message => exact id
          | ok read => exact id

theorem Synced.poll_line (reads : Json.Reads fromSlice) {rest : List JournalRecord}
    (stored : Stored fromSlice files runId (before ++ record :: rest))
    (synced : Synced files runId follower before (record :: rest))
    (begun : follower.pending = []) (shallow : Shallow record) :
    ∃ next, follower.poll fromSlice files [maxRecordBytes] = (.ok [record], next) ∧
      next.pending = [] ∧ Synced files runId next (before ++ [record]) rest := by
  have fits := stored.written before record rest rfl
  obtain ⟨middle, continued, here, same, later⟩ := synced.continued maxRecordBytes stored.small
  have left := (later.reading here).1
  rw [same, begun, List.nil_append, place_cons] at left
  have size : (Json.encode record.toJson).length + 1 ≤ maxRecordBytes := by
    have size := fits.size
    rw [JournalRecord.line, List.length_append] at size
    exact size
  have member : Json.newline ∈ middle.reader.take maxRecordBytes := by
    rw [left, List.take_append, List.take_of_length_le (by omega)]
    apply List.mem_append_right
    obtain ⟨more, enough⟩ : ∃ more, maxRecordBytes - (Json.encode record.toJson).length = more + 1 :=
      ⟨maxRecordBytes - (Json.encode record.toJson).length - 1, by omega⟩
    rw [enough]
    exact List.mem_cons_self
  have visible : (middle.reader.take maxRecordBytes).isEmpty = false :=
    List.isEmpty_eq_false_iff.mpr (List.ne_nil_of_mem member)
  have unfinished : middle.finished = false := by
    cases finished : middle.finished with
    | false => rfl
    | true =>
        have nothing := later.nothing_after stored finished
        cases nothing
  cases found : (middle.reader.take maxRecordBytes).idxOf? Json.newline with
  | none => exact absurd member (List.idxOf?_eq_none_iff.mp found)
  | some index =>
      have outcome := later.line reads stored.valid fits
        (stored.readable record (by simp)) here found
      rw [if_pos (show record.toJson.depth < 128 from shallow)] at outcome
      obtain ⟨next, consumed, clear, further⟩ := outcome
      have whole : Stored fromSlice files runId ((before ++ [record]) ++ rest) := by
        rw [List.append_assoc]
        exact stored
      have ended : ∃ last, next.readAvailable fromSlice files [] [record] = .ok ([record], last) ∧
          last.pending = [] ∧ Synced files runId last (before ++ [record]) rest := by
        rw [JournalFollower.readAvailable]
        split
        · exact ⟨next, rfl, clear, further⟩
        · obtain ⟨last, waited, -, still, synced⟩ := further.continued 0 whole.small
          rw [waited]
          exact ⟨last, rfl, still.trans clear, synced⟩
      obtain ⟨last, rested, still, ending⟩ := ended
      rw [JournalFollower.poll, synced.alive, if_neg (by simp), JournalFollower.readAvailable,
        if_neg (by simp [maxPollRecords]), continued]
      simp only [visible, unfinished, Bool.false_eq_true, ite_false, consumed, Option.toList_some,
        List.nil_append, rested]
      exact ⟨last, rfl, still, ending⟩

/-- Where no record nests too deep, enough polls yield all of them. -/
theorem Synced.polls_all (reads : Json.Reads fromSlice)
    (stored : Stored fromSlice files runId (before ++ after))
    (synced : Synced files runId follower before after) (begun : follower.pending = [])
    (shallow : ∀ record ∈ after, Shallow record) :
    ∃ last, follower.polls fromSlice files (List.replicate after.length [maxRecordBytes]) =
      .ok (after, last) ∧ Synced files runId last (before ++ after) [] := by
  induction after generalizing follower before with
  | nil =>
      refine ⟨follower, rfl, ?_⟩
      rw [List.append_nil]
      exact synced
  | cons record rest ih =>
      obtain ⟨next, polled, clear, later⟩ :=
        synced.poll_line reads stored begun (shallow record List.mem_cons_self)
      rw [List.append_cons before record rest]
      obtain ⟨last, others, ending⟩ := @ih _ (before ++ [record])
        (by rw [List.append_assoc]; exact stored) later clear
        fun other member => shallow other (List.mem_cons_of_mem _ member)
      rw [List.length_cons, List.replicate_succ, JournalFollower.polls, polled]
      simp only [others]
      exact ⟨last, rfl, ending⟩

end Kvist.Observation
