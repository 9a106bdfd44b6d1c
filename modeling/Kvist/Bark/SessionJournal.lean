import Kvist.Json.Bytes
import Kvist.TextLines
import Kvist.Utf8
import Kvist.Json.Balance
import Kvist.Json.Parser
import Kvist.Json.Records
import Kvist.Utf8Prefix

/-!
# The journal of the shell

Each entry is a line of JSON text at the end of a file that all sessions share. A session lists the
entries that it reads from the file when it begins, and its own.
-/

set_option autoImplicit false

namespace Kvist.Bark

def maxJournalBytes : Nat := 1048576

structure JournalEntry where
  timestamp : String
  command : String
  result : String
  deriving DecidableEq

namespace JournalEntry

def toJson (entry : JournalEntry) : Json.Value :=
  .object [("timestamp", .string entry.timestamp), ("command", .string entry.command),
    ("result", .string entry.result)]

def text (entry : JournalEntry) : List Char := Json.compact entry.toJson

/-- The line that an entry is written as. -/
def line (entry : JournalEntry) : List UInt8 := Json.utf8 (entry.text ++ ['\n'])

end JournalEntry

variable (fromStr : List Char → Option JournalEntry)

def loadExisting : Option (List UInt8) → List JournalEntry
  | none => []
  | some bytes =>
      if maxJournalBytes < bytes.length then []
      else
        match Utf8.fromUtf8 bytes with
        | none => []
        | some contents => (Text.lines contents).filterMap fromStr

/-- The file, and the entries that the session lists. -/
structure SessionJournal where
  file : Option (List UInt8)
  entries : List JournalEntry

namespace SessionJournal

/-- A session that begins with the file. -/
def new (file : Option (List UInt8)) : SessionJournal := ⟨file, loadExisting fromStr file⟩

/-- An append with the number of bytes that are written before it is interrupted. -/
structure Append where
  entry : JournalEntry
  written : Nat

def Append.bytes (append : Append) : List UInt8 := append.entry.line.take append.written

def Append.completed (append : Append) : Bool := append.entry.line.length ≤ append.written

def append (journal : SessionJournal) (append : Append) : SessionJournal :=
  ⟨some (journal.file.getD [] ++ append.bytes), journal.entries ++ [append.entry]⟩

/-- What sessions reach, one after the other, with all appends that were attempted. Each append may
be restricted by the file that it finds. -/
inductive Reached (allowed : List UInt8 → Append → Prop) : List Append → SessionJournal → Prop where
  | first : Reached allowed [] (new fromStr none)
  | session {attempts : List Append} {journal : SessionJournal}
      (before : Reached allowed attempts journal) : Reached allowed attempts (new fromStr journal.file)
  | append {attempts : List Append} {journal : SessionJournal} {attempt : Append}
      (before : Reached allowed attempts journal)
      (permitted : allowed (journal.file.getD []) attempt) :
      Reached allowed (attempts ++ [attempt]) (journal.append attempt)

end SessionJournal

end Kvist.Bark

/-! ## What later sessions list

Entries are kept across sessions as long as no append goes on with a line that an interrupted one has
begun. Such a line is lost with the entry at its end.
-/

namespace Kvist.Bark

open Json (utf8)

/-! ## Lines of entries -/

theorem escape_printable (character : Char) :
    ∀ other ∈ Json.escape character, 0x20 ≤ other.toNat := by
  have digits : ∀ digit < 16, 0x20 ≤ (Json.hexDigit digit).toNat := by decide
  intro other member
  rw [Json.escape] at member
  split_ifs at member with _ _ _ _ _ _ _ control
  all_goals simp only [List.mem_cons, List.not_mem_nil, or_false] at member
  · rcases member with rfl | rfl <;> decide
  · rcases member with rfl | rfl <;> decide
  · rcases member with rfl | rfl <;> decide
  · rcases member with rfl | rfl <;> decide
  · rcases member with rfl | rfl <;> decide
  · rcases member with rfl | rfl <;> decide
  · rcases member with rfl | rfl <;> decide
  · rcases member with rfl | rfl | rfl | rfl | rfl | rfl
    · decide
    · decide
    · decide
    · decide
    · exact digits _ (by omega)
    · exact digits _ (by omega)
  · rw [member]
    exact Nat.le_of_not_lt control

theorem quote_printable (text : String) : ∀ character ∈ Json.quote text, 0x20 ≤ character.toNat := by
  intro character member
  rw [Json.quote, List.mem_cons, List.mem_append, List.mem_singleton] at member
  obtain rfl | inside | rfl := member
  · decide
  · obtain ⟨original, _, spelled⟩ := List.mem_flatMap.mp inside
    exact escape_printable original character spelled
  · decide

theorem text_printable (entry : JournalEntry) : ∀ character ∈ entry.text, 0x20 ≤ character.toNat := by
  intro character member
  simp only [JournalEntry.text, JournalEntry.toJson, Json.compact, Json.compactMembers,
    List.mem_cons, List.mem_append, List.not_mem_nil, or_false] at member
  rcases member with rfl | ((name | rfl | value | rfl | name | rfl | value | rfl | name | rfl |
    value) | rfl)
  all_goals first | decide | exact quote_printable _ character ‹_›

theorem newline_notMem_text (entry : JournalEntry) : '\n' ∉ entry.text :=
  fun member => absurd (text_printable entry _ member) (by decide)

theorem return_notMem_text (entry : JournalEntry) : '\r' ∉ entry.text :=
  fun member => absurd (text_printable entry _ member) (by decide)

/-- A line feed among the bytes of a text is one in the text. -/
theorem newline_mem_utf8 {text : List Char} (member : (10 : UInt8) ∈ utf8 text) : '\n' ∈ text := by
  obtain ⟨character, inside, encoded⟩ := List.mem_flatMap.mp member
  have code := Json.utf8EncodeChar_ascii (by decide) encoded
  have same : character = '\n' := Char.toNat_inj.mp code
  exact same ▸ inside

namespace SessionJournal

/-! ## What is relied on -/

/-- Entries are read back from their text, and not from a part of it that is cut short. -/
structure Laws (fromStr : List Char → Option JournalEntry) : Prop where
  roundTrip : ∀ entry : JournalEntry, fromStr entry.text = some entry
  truncated : ∀ (entry : JournalEntry) (front back : List Char), front ++ back = entry.text →
    back ≠ [] → fromStr front = none

/-- The append begins a line, and where it is cut a character ends. -/
def Steady (file : List UInt8) (attempt : Append) : Prop :=
  (attempt.bytes = [] ∨ file = [] ∨ file.getLast? = some 10) ∧ ∃ text, utf8 text = attempt.bytes

/-- Every completed append is listed once and in order, and nothing that was not attempted. -/
def Lists (attempts : List Append) (listed : List JournalEntry) : Prop :=
  ∃ chosen, List.Sublist chosen attempts ∧ List.Sublist (attempts.filter Append.completed) chosen ∧
    listed = chosen.map (·.entry)

/-! ## The file -/

def completedEntries (attempts : List Append) : List JournalEntry :=
  (attempts.filter Append.completed).map (·.entry)

/-- The text of the file: a line for each completed append, and what an interrupted one has begun. -/
structure Stored (attempts : List Append) (file : List UInt8) (tail : List Char) : Prop where
  bytes : file = utf8 ((completedEntries attempts).flatMap (fun entry => entry.text ++ ['\n']) ++ tail)
  begun : tail ≠ [] → ∃ attempt back,
    List.Sublist (attempts.filter Append.completed ++ [attempt]) attempts ∧
      tail ++ back = attempt.entry.text

variable {fromStr : List Char → Option JournalEntry} {attempts : List Append} {attempt : Append}
  {file : List UInt8} {tail : List Char} {journal : SessionJournal} {listed : List JournalEntry}

theorem Stored.tail_unbroken (stored : Stored attempts file tail) : '\n' ∉ tail := by
  by_cases empty : tail = []
  · rw [empty]
    exact List.not_mem_nil
  · obtain ⟨attempt, back, _, whole⟩ := stored.begun empty
    exact fun member => newline_notMem_text attempt.entry
      (whole ▸ List.mem_append_left back member)

/-- A file that ends with a line feed has nothing behind its lines. -/
theorem Stored.fresh (stored : Stored attempts file tail)
    (ended : file = [] ∨ file.getLast? = some 10) : tail = [] := by
  by_contra some
  obtain ⟨first, rest, rfl⟩ := List.exists_cons_of_ne_nil some
  have nonempty : utf8 (first :: rest) ≠ [] := by
    obtain ⟨byte, others, encoded, _⟩ := Utf8.next_utf8EncodeChar first []
    rw [utf8, List.flatMap_cons, encoded]
    exact List.cons_ne_nil _ _
  have bytes := stored.bytes
  rw [Json.utf8_append] at bytes
  rcases ended with none | last
  · exact nonempty (List.append_eq_nil_iff.mp (bytes.symm.trans none)).2
  · rw [bytes, List.getLast?_append_of_ne_nil _ nonempty] at last
    exact stored.tail_unbroken (newline_mem_utf8 (List.mem_of_getLast? last))

theorem line_ne_nil (entry : JournalEntry) : entry.line ≠ [] := by
  have begins : entry.line = 0x7b :: entry.line.tail := rfl
  rw [begins]
  exact List.cons_ne_nil _ _

theorem bytes_of_completed (completed : attempt.completed = true) :
    attempt.bytes = attempt.entry.line :=
  List.take_of_length_le (of_decide_eq_true completed)

theorem completedEntries_append : completedEntries (attempts ++ [attempt]) =
    completedEntries attempts ++ if attempt.completed then [attempt.entry] else [] := by
  rw [completedEntries, List.filter_append, List.map_append, ← completedEntries]
  cases done : attempt.completed with
  | true => rw [List.filter_cons_of_pos done]; rfl
  | false => rw [List.filter_cons_of_neg (Bool.not_eq_true _ ▸ done)]; rfl

theorem Stored.append (stored : Stored attempts file tail) (steady : Steady file attempt) :
    ∃ tail, Stored (attempts ++ [attempt]) (file ++ attempt.bytes) tail := by
  obtain ⟨fresh, text, textEq⟩ := steady
  cases done : attempt.completed with
  | true =>
      have whole := bytes_of_completed done
      have nonempty : attempt.bytes ≠ [] := whole ▸ line_ne_nil attempt.entry
      obtain rfl := stored.fresh (fresh.resolve_left nonempty)
      refine ⟨[], ?_, fun impossible => absurd rfl impossible⟩
      rw [completedEntries_append, if_pos done, stored.bytes, whole, List.append_nil,
        List.append_nil, List.flatMap_append, List.flatMap_singleton, Json.utf8_append]
      rfl
  | false =>
      have same : completedEntries (attempts ++ [attempt]) = completedEntries attempts := by
        rw [completedEntries_append, done, if_neg Bool.false_ne_true, List.append_nil]
      have filtered : (attempts ++ [attempt]).filter Append.completed =
          attempts.filter Append.completed := by
        rw [List.filter_append, List.filter_cons_of_neg (by rw [done]; exact Bool.false_ne_true),
          List.filter_nil, List.append_nil]
      by_cases none : attempt.bytes = []
      · refine ⟨tail, ?_, fun some => ?_⟩
        · rw [same, none, List.append_nil]
          exact stored.bytes
        · obtain ⟨earlier, back, within, whole⟩ := stored.begun some
          refine ⟨earlier, back, ?_, whole⟩
          rw [filtered]
          exact within.trans (List.sublist_append_left _ _)
      · obtain rfl := stored.fresh (fresh.resolve_left none)
        refine ⟨text, ?_, fun _ => ?_⟩
        · rw [same, stored.bytes, List.append_nil, Json.utf8_append, textEq]
        · have within : text <+: attempt.entry.text := by
            have short : text ≠ attempt.entry.text ++ ['\n'] := by
              rintro rfl
              have whole : attempt.entry.line = attempt.bytes := textEq
              have length := congrArg List.length whole
              rw [Append.bytes, List.length_take] at length
              have cut := of_decide_eq_false done
              omega
            have begins : utf8 text <+: utf8 (attempt.entry.text ++ ['\n']) ++ [] := by
              rw [textEq, List.append_nil]
              exact List.take_prefix _ _
            exact (List.prefix_concat_iff.mp
              (Utf8.prefix_of_stuck Utf8.stuck_nil begins)).resolve_left short
          obtain ⟨back, whole⟩ := within
          refine ⟨attempt, back, ?_, whole⟩
          rw [filtered]
          exact List.Sublist.append List.filter_sublist (List.Sublist.refl _)

/-! ## Sessions -/

theorem lists_append (lists : Lists attempts listed) :
    Lists (attempts ++ [attempt]) (listed ++ [attempt.entry]) := by
  obtain ⟨chosen, within, around, rfl⟩ := lists
  refine ⟨chosen ++ [attempt], within.append (List.Sublist.refl _), ?_, ?_⟩
  · rw [List.filter_append]
    exact around.append List.filter_sublist
  · rw [List.map_append, List.map_singleton]

theorem lists_loadExisting (laws : Laws fromStr) (stored : Stored attempts file tail)
    (small : file.length ≤ maxJournalBytes) : Lists attempts (loadExisting fromStr (some file)) := by
  have read := Utf8.fromUtf8_eq_some_iff.mpr stored.bytes.symm
  have lines : (completedEntries attempts).flatMap (fun entry => entry.text ++ ['\n']) =
      ((completedEntries attempts).map JournalEntry.text).flatMap (· ++ ['\n']) := by
    rw [List.flatMap_map]
  have single : ∀ piece ∈ (completedEntries attempts).map JournalEntry.text,
      '\n' ∉ piece ∧ '\r' ∉ piece := by
    intro piece member
    obtain ⟨entry, _, rfl⟩ := List.mem_map.mp member
    exact ⟨newline_notMem_text entry, return_notMem_text entry⟩
  have listed : ∀ entries : List JournalEntry,
      (entries.map JournalEntry.text).filterMap fromStr = entries := by
    intro entries
    rw [List.filterMap_map]
    refine (List.filterMap_congr fun entry _ => ?_).trans List.filterMap_some
    exact laws.roundTrip entry
  rw [loadExisting, if_neg (Nat.not_lt.mpr small), read]
  dsimp only
  rw [lines, Text.lines_flatMap_append single stored.tail_unbroken, List.filterMap_append, listed]
  have completed : Lists attempts (completedEntries attempts) :=
    ⟨_, List.filter_sublist, List.Sublist.refl _, rfl⟩
  by_cases empty : tail = []
  · rw [if_pos empty, List.filterMap_nil, List.append_nil]
    exact completed
  · rw [if_neg empty]
    obtain ⟨attempt, back, within, whole⟩ := stored.begun empty
    by_cases cut : back = []
    · have same : tail = attempt.entry.text := by rw [← whole, cut, List.append_nil]
      rw [same, List.filterMap_cons_some (laws.roundTrip attempt.entry), List.filterMap_nil]
      refine ⟨_, within, List.sublist_append_left _ _, ?_⟩
      rw [List.map_append, List.map_singleton]
      rfl
    · rw [List.filterMap_cons_none (laws.truncated attempt.entry tail back whole cut),
        List.filterMap_nil, List.append_nil]
      exact completed

theorem lists_new {stored : Option (List UInt8)} (laws : Laws fromStr)
    (kept : Stored attempts (stored.getD []) tail)
    (small : (stored.getD []).length ≤ maxJournalBytes) :
    Lists attempts (new fromStr stored).entries := by
  cases stored with
  | some file => exact lists_loadExisting laws kept small
  | none =>
      have empty : loadExisting fromStr (some []) = [] := by
        rw [loadExisting, if_neg (by decide)]
        rfl
      have listed := lists_loadExisting laws kept small
      rw [Option.getD_none, empty] at listed
      exact listed

/-- What sessions keep, one append after the other. -/
theorem Reached.kept (laws : Laws fromStr) (reached : Reached fromStr Steady attempts journal)
    (small : (journal.file.getD []).length ≤ maxJournalBytes) :
    Lists attempts journal.entries ∧ ∃ tail, Stored attempts (journal.file.getD []) tail := by
  induction reached with
  | first => exact ⟨⟨[], List.Sublist.slnil, List.Sublist.slnil, rfl⟩, [], rfl, nofun⟩
  | session before ih =>
      obtain ⟨_, tail, stored⟩ := ih small
      exact ⟨lists_new laws stored small, tail, stored⟩
  | @append attempts journal attempt before steady ih =>
      have length : (journal.file.getD [] ++ attempt.bytes).length ≤ maxJournalBytes := small
      rw [List.length_append] at length
      obtain ⟨lists, tail, stored⟩ := ih (Nat.le_of_add_right_le length)
      exact ⟨lists_append lists, stored.append steady⟩

/-- Completed entries survive interruptions, as long as no append goes on with a line that an
interrupted one has begun. -/
theorem entries_survive (laws : Laws fromStr) (reached : Reached fromStr Steady attempts journal)
    (small : (journal.file.getD []).length ≤ maxJournalBytes) : Lists attempts journal.entries :=
  (reached.kept laws small).1

/-! ## A reader -/

def readEntry (document : Json.Value) : Option JournalEntry :=
  match Json.recordFields ["timestamp", "command", "result"] document with
  | some [.string timestamp, .string command, .string result] => some ⟨timestamp, command, result⟩
  | _ => none

/-- A reader for entries as they are written. -/
def journalReader (text : List Char) : Option JournalEntry :=
  ((Json.parseSlice (utf8 text)).bind readEntry).filter fun entry => entry.text = text

theorem journalReader_laws : Laws journalReader where
  roundTrip := by
    intro entry
    have readable : Json.Readable Json.parseSlice entry.toJson := by
      refine @Json.readable_record _ ["timestamp", "command", "result"]
        [.string entry.timestamp, .string entry.command, .string entry.result] (by decide) rfl ?_
      simp only [List.forall_mem_cons, Json.readable_string, true_and]
      exact nofun
    have parsed : Json.parseSlice (utf8 entry.text) = some entry.toJson :=
      Json.parseSlice_reads.encode readable
    rw [journalReader, parsed, Option.bind_some, show readEntry entry.toJson = some entry from rfl,
      Option.filter_some, if_pos (decide_eq_true rfl)]
  truncated := by
    intro entry front back whole cut
    cases read : journalReader front with
    | none => rfl
    | some other =>
        have same : other.text = front := of_decide_eq_true (Option.filter_eq_some_iff.mp read).2
        have longer : entry.text = other.text ++ back := by rw [same, whole]
        exact absurd (Json.object_prefix rfl rfl longer) cut

/-- Nothing is read of a line that goes on with what an interrupted append has begun. -/
theorem journalReader_swallowed {text : List Char} (begun : text.take 6 = "\x7b\"tim\x7b".toList) :
    journalReader text = none := by
  cases read : journalReader text with
  | none => rfl
  | some entry =>
      have same : entry.text = text := of_decide_eq_true (Option.filter_eq_some_iff.mp read).2
      have begins : entry.text.take 6 = "\x7b\"time".toList := rfl
      rw [same, begun] at begins
      exact absurd begins (by decide)

def firstEntry : JournalEntry := ⟨"1", "tasks", "ok"⟩

def secondEntry : JournalEntry := ⟨"2", "quit", "ok"⟩

/-- What an interrupted append has begun, and a whole line behind it. -/
def tornFile : List UInt8 := firstEntry.line.take 5 ++ secondEntry.line

theorem tornFile_eq : tornFile =
    utf8 ([firstEntry.text.take 5 ++ secondEntry.text].flatMap (· ++ ['\n']) ++ []) := by
  have begun : firstEntry.line.take 5 = utf8 (firstEntry.text.take 5) := by decide
  rw [tornFile, begun, List.flatMap_singleton, List.append_nil, List.append_assoc, Json.utf8_append]
  rfl

theorem tornFile_length : tornFile.length ≤ maxJournalBytes := by
  rw [show tornFile.length = 54 by decide]
  decide

theorem loadExisting_tornFile : loadExisting journalReader (some tornFile) = [] := by
  have plain : ∀ piece ∈ [firstEntry.text.take 5 ++ secondEntry.text],
      '\n' ∉ piece ∧ '\r' ∉ piece := by
    intro piece member
    rw [List.mem_singleton.mp member, List.mem_append, List.mem_append, not_or, not_or]
    exact ⟨⟨fun inside => newline_notMem_text _ (List.mem_of_mem_take inside),
      newline_notMem_text _⟩, fun inside => return_notMem_text _ (List.mem_of_mem_take inside),
      return_notMem_text _⟩
  rw [loadExisting, if_neg (Nat.not_lt.mpr tornFile_length),
    Utf8.fromUtf8_eq_some_iff.mpr tornFile_eq.symm]
  dsimp only
  rw [Text.lines_flatMap_append plain List.not_mem_nil, if_pos rfl,
    List.append_nil, List.filterMap_cons_none (journalReader_swallowed rfl), List.filterMap_nil]

/-- The append of a whole line. -/
def complete (entry : JournalEntry) : Append := ⟨entry, entry.line.length⟩

theorem complete_completed (entry : JournalEntry) : (complete entry).completed = true :=
  decide_eq_true (Nat.le_refl _)

theorem complete_bytes (entry : JournalEntry) : (complete entry).bytes = entry.line :=
  bytes_of_completed (complete_completed entry)

theorem interrupted_line_swallows_entry : ∃ attempts journal,
    Reached journalReader (fun _ _ => True) attempts journal ∧
    (journal.file.getD []).length ≤ maxJournalBytes ∧ ¬Lists attempts journal.entries := by
  have start : Reached journalReader (fun _ _ => True) [] (new journalReader none) := .first
  have second : Reached journalReader (fun _ _ => True) ([] ++ [⟨firstEntry, 5⟩])
      ((new journalReader none).append ⟨firstEntry, 5⟩) := .append start trivial
  have third : Reached journalReader (fun _ _ => True) ([] ++ [⟨firstEntry, 5⟩] ++ [complete secondEntry])
      (((new journalReader none).append ⟨firstEntry, 5⟩).append (complete secondEntry)) :=
    .append second trivial
  have later := third.session
  have stored : ((((new journalReader none).append ⟨firstEntry, 5⟩).append
      (complete secondEntry)).file) = some tornFile := by
    rw [append, complete_bytes]
    rfl
  rw [stored] at later
  refine ⟨_, _, later, tornFile_length, ?_⟩
  rintro ⟨chosen, _, around, listed⟩
  rw [new, loadExisting_tornFile] at listed
  rw [List.map_eq_nil_iff.mp listed.symm] at around
  exact List.not_mem_nil (around.subset (List.mem_filter.mpr
    ⟨List.mem_append_right _ List.mem_cons_self, complete_completed secondEntry⟩))

theorem entries_survive_interrupted : Lists ([] ++ [complete firstEntry] ++ [⟨secondEntry, 5⟩])
    (new journalReader (some (firstEntry.line ++ secondEntry.line.take 5))).entries := by
  have begins : Steady [] (complete firstEntry) :=
    ⟨Or.inr (Or.inl rfl), firstEntry.text ++ ['\n'], (complete_bytes firstEntry).symm⟩
  have follows : Steady firstEntry.line ⟨secondEntry, 5⟩ :=
    ⟨Or.inr (Or.inr (by decide)), secondEntry.text.take 5, by decide⟩
  have start : Reached journalReader Steady [] (new journalReader none) := .first
  have second := start.append begins
  have stored : (new journalReader none).append (complete firstEntry) =
      ⟨some firstEntry.line, [firstEntry]⟩ := by
    rw [append, complete_bytes]
    rfl
  rw [stored] at second
  have later := (second.append follows).session
  have small : (firstEntry.line ++ secondEntry.line.take 5).length ≤ maxJournalBytes := by
    rw [show (firstEntry.line ++ secondEntry.line.take 5).length = 55 by decide]
    decide
  exact entries_survive journalReader_laws later small

end SessionJournal

end Kvist.Bark
