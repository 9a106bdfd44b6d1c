import Kvist.Radix
import Kvist.Utf8
import Kvist.Session.Log

/-!
# The session history

What is listed of a past session is read from its transcript: the last line that reads as a finish
line, or else the name in the first line that reads as a start line.
-/

set_option autoImplicit false

namespace Kvist.Session

open Text Radix

def maxListedBytes : Nat := 5 * 1024 * 1024

structure FinishMeta where
  id : List Char
  turns : Option Nat
  tokens : Option Nat
  success : Option Bool
  deriving DecidableEq, Repr

/-- The number that a word starts with. -/
def stripNumber (part : List Char) : Option Nat :=
  fromStrRadix 10 usizeMax (part.takeWhile isAsciiDigit)

def isSeparator (character : Char) : Bool := character = ',' || character = ' '

/-- The words between commas and spaces. -/
def words (rest : List Char) : List (List Char) :=
  (rest.splitOnP isSeparator).filter fun part => !part.isEmpty

structure Metrics where
  turns : Option Nat
  total : Option Nat
  previous : Option (List Char)
  deriving DecidableEq, Repr

/-- The number in front of a known label is taken. -/
def scanPart (metrics : Metrics) (part : List Char) : Metrics :=
  let number := metrics.previous.bind stripNumber
  let metrics :=
    if part = "turns".toList ∨ part = "turn".toList then
      { metrics with turns := number.or metrics.turns }
    else if part = "tokens".toList ∨ part = "token".toList then
      { metrics with total := number.or metrics.total }
    else metrics
  { metrics with previous := some part }

def successOf (parts : List (List Char)) : Option Bool :=
  ((parts.getLast?.map trimList).filter fun status => !status.isEmpty).map fun status =>
    status == "ok".toList

/-! ## The markers of a session -/

def opening : List Char := "== session ".toList

def closing : List Char := " ==".toList

def finishedMark : List Char := " finished: ".toList

def startedMark : List Char := " started ".toList

def parseFinish (line : List Char) : Option FinishMeta :=
  (stripTrailing closing line).bind fun inner =>
    (stripLeading opening inner).bind fun inner =>
      (splitOnceText finishedMark inner).bind fun parts =>
        if parts.1.isEmpty then none
        else
          let tokens := words parts.2
          let metrics := tokens.foldl scanPart ⟨none, none, none⟩
          some ⟨parts.1, metrics.turns, metrics.total, successOf tokens⟩

def extractId (line : List Char) : Option (List Char) :=
  (stripTrailing closing line).bind fun inner =>
    (stripLeading opening inner).bind fun inner =>
      (splitOnceText startedMark inner).bind fun parts =>
        if parts.1.isEmpty then none else some parts.1

/-- The last finish line so far, and the name in the first start line. -/
def scanLine (found : Option FinishMeta × Option (List Char)) (line : List Char) :
    Option FinishMeta × Option (List Char) :=
  ((parseFinish line).or found.1, found.2.or (extractId line))

/-- What is listed of a transcript; one above the bound is not read. -/
def parseTranscriptMeta (bytes : List UInt8) : Option FinishMeta :=
  if maxListedBytes < bytes.length then none
  else
    let found := (lines (Utf8.fromUtf8Lossy bytes)).foldl scanLine (none, none)
    found.1.or (found.2.map fun id => ⟨id, none, none, none⟩)

end Kvist.Session

/-! ## What a transcript is read as

A finish line is read back as it was written. Texts stand in the transcript as they were logged, so
the lines behind the first of a text can read as a finish line, too.
-/

namespace Kvist.Session

open Text Radix

/-! ## The words of a finish line -/

theorem isSeparator_digit {value : Nat} {digit : Char} (member : digit ∈ decimal value) :
    isSeparator digit = false := by
  have decimal := isAsciiDigit_of_mem_toString member
  by_contra separator
  simp only [isSeparator, Bool.or_eq_false_iff, decide_eq_false_iff_not, not_and_or,
    Decidable.not_not] at separator
  rcases separator with rfl | rfl <;> exact absurd decimal (by decide)

theorem words_append {front rest : List Char} {separator : Char}
    (apart : isSeparator separator = true) :
    words (front ++ separator :: rest) = words front ++ words rest := by
  rw [words, List.splitOnP_append_cons _ _ apart, List.filter_append]
  rfl

theorem words_single {word : List Char} (plain : ∀ character ∈ word, isSeparator character = false)
    (nonempty : word ≠ []) : words word = [word] := by
  rw [words, List.splitOnP_eq_singleton plain]
  simp [nonempty]

theorem words_cons {rest : List Char} {separator : Char} (apart : isSeparator separator = true) :
    words (separator :: rest) = words rest :=
  @words_append [] rest separator apart

theorem decimal_ne_nil (value : Nat) : decimal value ≠ [] := by
  have digits : decimal value = Nat.toDigits 10 value := Nat.toList_repr
  rw [digits]
  exact Nat.toDigits_ne_nil

theorem words_decimal (value : Nat) : words (decimal value) = [decimal value] :=
  words_single (fun _ member => isSeparator_digit member) (decimal_ne_nil value)

/-- What a finish line says between its colon and its end. -/
def Finish.body (finish : Finish) : List Char :=
  decimal finish.turns.toNat ++ " turns, ".toList ++
    ((finish.tokens.map (decimal ·.val)).getD "unknown provider usage".toList) ++
    " tokens, ".toList ++ decimal finish.seconds ++ "s, prompt ".toList ++ decimal finish.prompt ++
    ", ".toList ++ (if finish.success then "ok" else finish.disposition.name).toList

def Finish.tokenWords (finish : Finish) : List (List Char) :=
  match finish.tokens with
  | some total => [decimal total.val]
  | none => ["unknown".toList, "provider".toList, "usage".toList]

def Finish.status (finish : Finish) : List Char :=
  (if finish.success then "ok" else finish.disposition.name).toList

theorem words_tokens (finish : Finish) :
    words ((finish.tokens.map (decimal ·.val)).getD "unknown provider usage".toList) =
      finish.tokenWords := by
  cases tokens : finish.tokens with
  | none =>
      rw [Finish.tokenWords, tokens]
      decide
  | some total =>
      rw [Finish.tokenWords, tokens]
      exact words_decimal total.val

theorem words_status (finish : Finish) : words finish.status = [finish.status] := by
  rw [Finish.status]
  cases finish.success <;> cases finish.disposition <;> decide

theorem words_body (finish : Finish) :
    words finish.body =
      decimal finish.turns.toNat :: "turns".toList :: (finish.tokenWords ++
        ["tokens".toList, decimal finish.seconds ++ ['s'], "prompt".toList, decimal finish.prompt,
          finish.status]) := by
  have body : finish.body =
      decimal finish.turns.toNat ++ ' ' :: ("turns".toList ++ ',' :: ' ' ::
        (((finish.tokens.map (decimal ·.val)).getD "unknown provider usage".toList) ++ ' ' ::
          ("tokens".toList ++ ',' :: ' ' :: ((decimal finish.seconds ++ ['s']) ++ ',' :: ' ' ::
            ("prompt".toList ++ ' ' :: (decimal finish.prompt ++ ',' :: ' ' ::
              finish.status)))))) := by
    simp [Finish.body, Finish.status]
  have seconds : words (decimal finish.seconds ++ ['s']) = [decimal finish.seconds ++ ['s']] := by
    refine words_single ?_ (by simp)
    intro character member
    rcases List.mem_append.mp member with digit | letter
    · exact isSeparator_digit digit
    · rw [List.mem_singleton.mp letter]
      decide
  have space : isSeparator ' ' = true := rfl
  have comma : isSeparator ',' = true := rfl
  have turns : words "turns".toList = ["turns".toList] := by decide
  have tokens : words "tokens".toList = ["tokens".toList] := by decide
  have prompt : words "prompt".toList = ["prompt".toList] := by decide
  rw [body]
  simp only [words_append space, words_append comma, words_cons space, words_decimal, words_tokens,
    words_status, seconds, turns, tokens, prompt, List.singleton_append]

/-! ## The numbers of a finish line -/

theorem stripNumber_decimal {value : Nat} (fits : value ≤ usizeMax) :
    stripNumber (decimal value) = some value := by
  have digits : (decimal value).takeWhile isAsciiDigit = decimal value :=
    List.takeWhile_eq_self_iff.mpr fun _ member => isAsciiDigit_of_mem_toString member
  rw [stripNumber, digits]
  exact fromStrRadix_toString fits

def metricLabels : List (List Char) :=
  ["turns".toList, "turn".toList, "tokens".toList, "token".toList]

theorem scanPart_plain (metrics : Metrics) {part : List Char} (plain : part ∉ metricLabels) :
    scanPart metrics part = { metrics with previous := some part } := by
  simp only [metricLabels, List.mem_cons, List.not_mem_nil, or_false, not_or] at plain
  simp only [scanPart, plain, or_self, if_false]

theorem not_label_of_head {part : List Char} (other : part.head? ≠ some 't') :
    part ∉ metricLabels := by
  intro member
  simp only [metricLabels, List.mem_cons, List.not_mem_nil, or_false] at member
  rcases member with rfl | rfl | rfl | rfl <;> exact other rfl

theorem not_label_decimal (value : Nat) (rest : List Char) :
    decimal value ++ rest ∉ metricLabels := by
  apply not_label_of_head
  obtain ⟨first, others, digits⟩ := List.exists_cons_of_ne_nil (decimal_ne_nil value)
  intro letter
  rw [digits, List.cons_append, List.head?_cons, Option.some.injEq] at letter
  have digit := @isAsciiDigit_of_mem_toString value first
    (show first ∈ decimal value from digits ▸ List.mem_cons_self)
  rw [letter] at digit
  exact absurd digit (by decide)

theorem scan_tokenWords (finish : Finish) (turns : Option Nat) (previous : Option (List Char)) :
    (finish.tokenWords ++ ["tokens".toList]).foldl scanPart ⟨turns, none, previous⟩ =
      ⟨turns, finish.tokens.map (·.val), some "tokens".toList⟩ := by
  cases tokens : finish.tokens with
  | none =>
      have unknown : "unknown".toList ∉ metricLabels := by decide
      have provider : "provider".toList ∉ metricLabels := by decide
      have usage : "usage".toList ∉ metricLabels := by decide
      have unread : stripNumber "usage".toList = none := by decide
      simp only [Finish.tokenWords, tokens, List.cons_append, List.nil_append, List.foldl_cons,
        List.foldl_nil, scanPart_plain _ unknown, scanPart_plain _ provider,
        scanPart_plain _ usage]
      simpa [scanPart] using unread
  | some total =>
      have plain := not_label_decimal total.val []
      rw [List.append_nil] at plain
      have read := @stripNumber_decimal total.val total.property
      simp only [Finish.tokenWords, tokens, List.cons_append, List.nil_append, List.foldl_cons,
        List.foldl_nil, scanPart_plain _ plain]
      simp [scanPart, read]

theorem status_not_label (finish : Finish) : finish.status ∉ metricLabels := by
  rw [Finish.status]
  cases finish.success <;> cases finish.disposition <;> decide

theorem scan_body (finish : Finish) :
    (words finish.body).foldl scanPart ⟨none, none, none⟩ =
      ⟨some finish.turns.toNat, finish.tokens.map (·.val), some finish.status⟩ := by
  have plain := not_label_decimal finish.turns.toNat []
  have prompt := not_label_decimal finish.prompt []
  rw [List.append_nil] at plain prompt
  have few : finish.turns.toNat ≤ usizeMax :=
    Nat.le_trans (Nat.le_of_lt finish.turns.toNat_lt) (by decide)
  have turns : scanPart ⟨none, none, some (decimal finish.turns.toNat)⟩ "turns".toList =
      ⟨some finish.turns.toNat, none, some "turns".toList⟩ := by
    simp [scanPart, stripNumber_decimal few]
  rw [words_body, List.foldl_cons, scanPart_plain _ plain, List.foldl_cons, turns,
    ← List.singleton_append, ← List.append_assoc, List.foldl_append, scan_tokenWords]
  simp only [List.foldl_cons, List.foldl_nil, scanPart_plain _ (not_label_decimal finish.seconds _),
    scanPart_plain _ (by decide : "prompt".toList ∉ metricLabels), scanPart_plain _ prompt,
    scanPart_plain _ (status_not_label finish)]

theorem successOf_body (finish : Finish) :
    successOf (words finish.body) = some finish.success := by
  have last : (words finish.body).getLast? = some finish.status := by
    rw [words_body]
    simp [List.getLast?_cons, List.getLast?_append]
  rw [successOf, last, Finish.status]
  cases finish.success <;> cases finish.disposition <;> decide

/-! ## The markers -/

/-- Of a mark the spaces stand at the two ends. -/
def Hinged (mark : List Char) : Prop :=
  ∀ front back, mark = front ++ ' ' :: back → front = [] ∨ back = []

theorem hinged_of_places {mark : List Char}
    (ends : ∀ place < mark.length, mark[place]? = some ' ' → place = 0 ∨ place + 1 = mark.length) :
    Hinged mark := by
  intro front back whole
  have lengths := congrArg List.length whole
  rw [List.length_append, List.length_cons] at lengths
  have space : mark[front.length]? = some ' ' := by
    rw [whole, List.getElem?_append_right (Nat.le_refl _), Nat.sub_self]
    rfl
  rcases ends front.length (by omega) space with first | last
  · exact .inl (List.length_eq_zero_iff.mp first)
  · exact .inr (List.length_eq_zero_iff.mp (by omega))

theorem hinged_finishedMark : Hinged finishedMark := hinged_of_places (by decide)

theorem hinged_startedMark : Hinged startedMark := hinged_of_places (by decide)

/-- A line between the signs of a marker. -/
def marked (inner : List Char) : List Char := opening ++ inner ++ closing

/-- The mark is not found in the name, nor at the space behind it. -/
def Named (mark name : List Char) : Prop :=
  name ≠ [] ∧ '\n' ∉ name ∧ splitOnceText mark (name ++ [' ']) = none

def Unread (mark name : List Char) : Prop :=
  ∀ front back, splitOnceText mark (name ++ [' ']) = some (front, back) → front = []

theorem unread_of_named {mark name : List Char} (named : Named mark name) : Unread mark name := by
  intro front back found
  rw [named.2.2] at found
  cases found

/-- A name in front of the mark is found as it stands if it has not the mark. -/
theorem splitOnceText_named {mark name : List Char} (hinged : Hinged mark) (long : 2 ≤ mark.length)
    (absent : splitOnceText mark (name ++ [' ']) = none) {behind rest : List Char}
    (begins : mark = ' ' :: behind) :
    splitOnceText mark (name ++ (mark ++ rest)) = some (name, rest) := by
  have here : splitOnceText mark (' ' :: (behind ++ rest)) = some ([], rest) := by
    rw [splitOnceText, ← List.cons_append, ← begins, stripLeading_append]
  rw [begins, List.cons_append, ← begins, splitOnceText_append_last hinged long, absent]
  simp only [here, Option.map_some, List.append_nil]

theorem absent_of_splitOnceText {mark inner name rest : List Char} (hinged : Hinged mark)
    (long : 2 ≤ mark.length) {behind : List Char} (begins : mark = ' ' :: behind)
    (found : splitOnceText mark inner = some (name, rest)) :
    splitOnceText mark (name ++ [' ']) = none := by
  have whole := splitOnceText_eq_some found
  cases earlier : splitOnceText mark (name ++ [' ']) with
  | none => rfl
  | some parts =>
      rw [whole, begins, List.cons_append, ← begins, splitOnceText_append_last hinged long,
        earlier] at found
      obtain ⟨same, -⟩ := Prod.mk.inj (Option.some.inj found)
      have lengths := congrArg List.length (splitOnceText_eq_some earlier)
      simp only [List.length_append, List.length_singleton, same] at lengths
      omega

theorem stripTrailing_eq_some {trailing line rest : List Char}
    (stripped : stripTrailing trailing line = some rest) : line = rest ++ trailing := by
  obtain ⟨reversed, found, rfl⟩ := Option.map_eq_some_iff.mp stripped
  rw [← List.reverse_reverse line, stripLeading_eq_some_iff.mp found]
  simp

theorem eq_marked {line inner middle : List Char}
    (trailing : stripTrailing closing line = some middle)
    (leading : stripLeading opening middle = some inner) : line = marked inner := by
  rw [stripTrailing_eq_some trailing, stripLeading_eq_some_iff.mp leading]
  rfl

theorem parseFinish_marked (inner : List Char) :
    parseFinish (marked inner) = (splitOnceText finishedMark inner).bind fun parts =>
      if parts.1.isEmpty then none
      else
        let tokens := words parts.2
        let metrics := tokens.foldl scanPart ⟨none, none, none⟩
        some ⟨parts.1, metrics.turns, metrics.total, successOf tokens⟩ := by
  rw [parseFinish, marked, stripTrailing_append, Option.bind_some, stripLeading_append,
    Option.bind_some]

theorem extractId_marked (inner : List Char) :
    extractId (marked inner) = (splitOnceText startedMark inner).bind fun parts =>
      if parts.1.isEmpty then none else some parts.1 := by
  rw [extractId, marked, stripTrailing_append, Option.bind_some, stripLeading_append,
    Option.bind_some]

theorem named_of_parseFinish {line : List Char} {read : FinishMeta} (single : '\n' ∉ line)
    (parsed : parseFinish line = some read) : Named finishedMark read.id := by
  rw [parseFinish, Option.bind_eq_some_iff] at parsed
  obtain ⟨middle, trailing, parsed⟩ := parsed
  obtain ⟨inner, leading, parsed⟩ := Option.bind_eq_some_iff.mp parsed
  obtain ⟨⟨name, rest⟩, found, parsed⟩ := Option.bind_eq_some_iff.mp parsed
  have line_eq := eq_marked trailing leading
  split at parsed
  case isTrue empty => cases parsed
  case isFalse nonempty =>
    obtain rfl := Option.some.inj parsed
    refine ⟨by simpa using nonempty, fun member => single ?_,
      absent_of_splitOnceText hinged_finishedMark (by decide) rfl found⟩
    rw [line_eq, splitOnceText_eq_some found]
    simp only [marked, List.mem_append]
    exact .inl (.inr (.inl member))

theorem named_of_extractId {line name : List Char} (single : '\n' ∉ line)
    (extracted : extractId line = some name) : Named startedMark name := by
  rw [extractId, Option.bind_eq_some_iff] at extracted
  obtain ⟨middle, trailing, extracted⟩ := extracted
  obtain ⟨inner, leading, extracted⟩ := Option.bind_eq_some_iff.mp extracted
  obtain ⟨⟨front, rest⟩, found, extracted⟩ := Option.bind_eq_some_iff.mp extracted
  have line_eq := eq_marked trailing leading
  split at extracted
  case isTrue empty => cases extracted
  case isFalse nonempty =>
    obtain rfl := Option.some.inj extracted
    refine ⟨by simpa using nonempty, fun member => single ?_,
      absent_of_splitOnceText hinged_startedMark (by decide) rfl found⟩
    rw [line_eq, splitOnceText_eq_some found]
    simp only [marked, List.mem_append]
    exact .inl (.inr (.inl member))

/-! ## The markers that the log writes -/

/-- What the finish line of this session tells. -/
def recordOf (taskId : List Char) (finish : Finish) : FinishMeta :=
  ⟨taskId, some finish.turns.toNat, finish.tokens.map (·.val), some finish.success⟩

def unfinished (taskId : List Char) : FinishMeta := ⟨taskId, none, none, none⟩

theorem render_finished (taskId : List Char) (finish : Finish) :
    (Entry.finished taskId finish).render =
      marked (taskId ++ (finishedMark ++ finish.body)) := by
  have rendered : (Entry.finished taskId finish).render =
      opening ++ taskId ++ finishedMark ++ decimal finish.turns.toNat ++ " turns, ".toList ++
        ((finish.tokens.map (decimal ·.val)).getD "unknown provider usage".toList) ++
        " tokens, ".toList ++ decimal finish.seconds ++ "s, prompt ".toList ++
        decimal finish.prompt ++ ", ".toList ++
        (if finish.success then "ok" else finish.disposition.name).toList ++ closing := rfl
  rw [rendered, marked, Finish.body]
  simp only [List.append_assoc]

theorem render_started (taskId : List Char) (seconds : Nat) :
    (Entry.started taskId seconds).render =
      marked (taskId ++ (startedMark ++ (decimal seconds ++ "s ago".toList))) := by
  have rendered : (Entry.started taskId seconds).render =
      opening ++ taskId ++ startedMark ++ decimal seconds ++ "s ago ==".toList := rfl
  have ending : "s ago ==".toList = "s ago".toList ++ closing := by decide
  rw [rendered, ending, marked]
  simp only [List.append_assoc]

/-- A finish line is read back. -/
theorem parseFinish_finished {taskId : List Char} (named : Named finishedMark taskId)
    (finish : Finish) :
    parseFinish (Entry.finished taskId finish).render = some (recordOf taskId finish) := by
  rw [render_finished, parseFinish_marked,
    splitOnceText_named hinged_finishedMark (by decide) named.2.2 rfl, Option.bind_some,
    if_neg (by simpa using named.1)]
  simp only [scan_body, successOf_body, recordOf]

theorem extractId_started {taskId : List Char} (named : Named startedMark taskId) (seconds : Nat) :
    extractId (Entry.started taskId seconds).render = some taskId := by
  rw [render_started, extractId_marked,
    splitOnceText_named hinged_startedMark (by decide) named.2.2 rfl, Option.bind_some,
    if_neg (by simpa using named.1)]

/-- A start line is read as a finish line only where the name has the mark of one. -/
theorem parseFinish_started_iff (taskId : List Char) (seconds : Nat) :
    parseFinish (Entry.started taskId seconds).render = none ↔ Unread finishedMark taskId := by
  have later : splitOnceText finishedMark
      (' ' :: ("started ".toList ++ (decimal seconds ++ "s ago".toList))) = none := by
    cases found : splitOnceText finishedMark
        (' ' :: ("started ".toList ++ (decimal seconds ++ "s ago".toList))) with
    | none => rfl
    | some parts =>
        have colon : ':' ∈ ' ' :: ("started ".toList ++ (decimal seconds ++ "s ago".toList)) := by
          rw [splitOnceText_eq_some found]
          exact List.mem_append_right _ (List.mem_append_left _ (by decide))
        simp only [List.mem_cons, List.mem_append] at colon
        rcases colon with here | inside | digit | inside
        · exact absurd here (by decide)
        · exact absurd inside (by decide)
        · exact absurd (isAsciiDigit_of_mem_toString digit) (by decide)
        · exact absurd inside (by decide)
  have mark : startedMark ++ (decimal seconds ++ "s ago".toList) =
      ' ' :: ("started ".toList ++ (decimal seconds ++ "s ago".toList)) := rfl
  rw [render_started, parseFinish_marked, mark,
    splitOnceText_append_last hinged_finishedMark (by decide), later]
  constructor
  · intro unread front back found
    rw [found] at unread
    by_contra nonempty
    rw [Option.bind_some, if_neg (by simpa using nonempty)] at unread
    cases unread
  · intro unread
    cases found : splitOnceText finishedMark (taskId ++ [' ']) with
    | none => rfl
    | some parts =>
        have empty := unread parts.1 parts.2 found
        simp [empty]

/-! ## The lines of a transcript -/

def Entry.lines (entry : Entry) : List (List Char) :=
  (entry.render.splitOn '\n').map dropCarriageReturn

/-- The lines behind the first of a text, which stand in the transcript as they were logged. -/
def Entry.freeLines : Entry → List (List Char)
  | .text label content => (Entry.text label content).lines.tail
  | .budget metadata => (Entry.budget metadata).lines.tail
  | .started _ _ | .finished _ _ => []

def lastRead (lines : List (List Char)) : Option FinishMeta := lines.reverse.findSome? parseFinish

/-- The name in the first line that reads as a start line. -/
def firstId (lines : List (List Char)) : Option (List Char) := lines.findSome? extractId

theorem lastRead_append (front back : List (List Char)) :
    lastRead (front ++ back) = (lastRead back).or (lastRead front) := by
  rw [lastRead, List.reverse_append, List.findSome?_append]
  rfl

theorem firstId_append (front back : List (List Char)) :
    firstId (front ++ back) = (firstId front).or (firstId back) :=
  List.findSome?_append

theorem foldl_scanLine (lines : List (List Char)) (finish : Option FinishMeta)
    (first : Option (List Char)) :
    lines.foldl scanLine (finish, first) =
      ((lastRead lines).or finish, first.or (firstId lines)) := by
  induction lines generalizing finish first with
  | nil => cases first <;> rfl
  | cons line rest ih =>
      have single : lastRead [line] = parseFinish line := by
        simp [lastRead]
      rw [List.foldl_cons, scanLine, ih, ← List.singleton_append, lastRead_append, firstId_append,
        single, Option.or_assoc, Option.or_assoc]
      simp [firstId]

theorem not_mem_entry_lines {entry : Entry} {line : List Char} (member : line ∈ entry.lines) :
    '\n' ∉ line := by
  obtain ⟨piece, inside, rfl⟩ := List.mem_map.mp member
  exact fun newline => not_mem_of_mem_splitOn inside
    (( dropCarriageReturn_prefix piece).subset newline)

/-- The entry is a text, and no marker. -/
def Entry.isText : Entry → Bool
  | .text _ _ | .budget _ => true
  | .started _ _ | .finished _ _ => false

/-- A marker is one line, where the name is. -/
theorem lines_of_marked {entry : Entry} {inner : List Char} (rendered : entry.render = marked inner)
    (single : '\n' ∉ inner) : entry.lines = [entry.render] := by
  have absent : '\n' ∉ entry.render := by
    rw [rendered, marked, List.mem_append, List.mem_append, not_or, not_or]
    exact ⟨⟨by decide, single⟩, by decide⟩
  have kept : dropCarriageReturn entry.render = entry.render := by
    rw [rendered, marked, dropCarriageReturn, List.reverse_append]
    rfl
  rw [Entry.lines, List.splitOn_eq_singleton absent, List.map_singleton, kept]

theorem newline_decimal (value : Nat) : '\n' ∉ decimal value := fun member =>
  absurd (isAsciiDigit_of_mem_toString member) (by decide)

theorem lines_started {taskId : List Char} (single : '\n' ∉ taskId) (seconds : Nat) :
    (Entry.started taskId seconds).lines = [(Entry.started taskId seconds).render] := by
  apply lines_of_marked (render_started taskId seconds)
  simp only [List.mem_append, not_or]
  exact ⟨single, by decide, newline_decimal seconds, by decide⟩

theorem newline_body (finish : Finish) : '\n' ∉ finish.body := by
  have tokens : '\n' ∉ ((finish.tokens.map (decimal ·.val)).getD
      "unknown provider usage".toList) := by
    cases finish.tokens with
    | none => decide
    | some total => exact newline_decimal total.val
  have status : '\n' ∉ (if finish.success then "ok" else finish.disposition.name).toList := by
    cases finish.success <;> cases finish.disposition <;> decide
  simp only [Finish.body, List.mem_append, not_or]
  exact ⟨⟨⟨⟨⟨⟨⟨⟨newline_decimal _, by decide⟩, tokens⟩, by decide⟩, newline_decimal _⟩, by decide⟩,
    newline_decimal _⟩, by decide⟩, status⟩

theorem lines_finished {taskId : List Char} (single : '\n' ∉ taskId) (finish : Finish) :
    (Entry.finished taskId finish).lines = [(Entry.finished taskId finish).render] := by
  apply lines_of_marked (render_finished taskId finish)
  simp only [List.mem_append, not_or]
  exact ⟨single, by decide, newline_body finish⟩

/-- A line that is read begins like a marker. -/
theorem head_of_parseFinish {line : List Char} {read : FinishMeta}
    (parsed : parseFinish line = some read) : line.head? = some '=' := by
  rw [parseFinish, Option.bind_eq_some_iff] at parsed
  obtain ⟨middle, trailing, parsed⟩ := parsed
  obtain ⟨inner, leading, -⟩ := Option.bind_eq_some_iff.mp parsed
  rw [eq_marked trailing leading]
  rfl

theorem head_of_extractId {line name : List Char} (extracted : extractId line = some name) :
    line.head? = some '=' := by
  rw [extractId, Option.bind_eq_some_iff] at extracted
  obtain ⟨middle, trailing, extracted⟩ := extracted
  obtain ⟨inner, leading, -⟩ := Option.bind_eq_some_iff.mp extracted
  rw [eq_marked trailing leading]
  rfl

theorem label_text_head (label : Label) :
    ∃ first others, label.text.toList = first :: others ∧ first ≠ '\n' ∧ first ≠ '=' := by
  have head : label.text.toList.head?.any (fun first => first ≠ '\n' ∧ first ≠ '=') = true := by
    cases label <;> decide
  cases letters : label.text.toList with
  | nil =>
      rw [letters] at head
      cases head
  | cons first others =>
      rw [letters] at head
      exact ⟨first, others, rfl, by simpa using head⟩

/-- The first line of a text is never read. -/
theorem lines_of_head {entry : Entry} {first : Char}
    (begins : entry.render.head? = some first) (other : first ≠ '\n') (noMark : first ≠ '=') :
    ∃ line, entry.lines = line :: entry.lines.tail ∧ parseFinish line = none ∧
      extractId line = none := by
  obtain ⟨others, rendered⟩ := List.head?_eq_some_iff.mp begins
  obtain ⟨piece, pieces, split⟩ := List.exists_cons_of_ne_nil (List.splitOn_ne_nil '\n' others)
  have lines : entry.lines = dropCarriageReturn (first :: piece) :: pieces.map dropCarriageReturn := by
    rw [Entry.lines, rendered, List.splitOn_cons_eq_if_modifyHead,
      if_neg (by simpa using other), split, List.modifyHead_cons, List.map_cons]
  have head : (dropCarriageReturn (first :: piece)).head? ≠ some '=' := by
    intro mark
    obtain ⟨back, whole⟩ := dropCarriageReturn_prefix (first :: piece)
    rw [List.head?_eq_some_iff] at mark
    obtain ⟨inner, begins⟩ := mark
    rw [begins, List.cons_append] at whole
    exact noMark (List.cons.inj whole).1.symm
  refine ⟨_, by rw [lines, List.tail_cons], ?_, ?_⟩
  · exact Option.eq_none_iff_forall_ne_some.mpr fun _ parsed => head (head_of_parseFinish parsed)
  · exact Option.eq_none_iff_forall_ne_some.mpr fun _ extracted => head (head_of_extractId extracted)

theorem lines_text (label : Label) (content : List Char) :
    ∃ line, (Entry.text label content).lines = line :: (Entry.text label content).freeLines ∧
      parseFinish line = none ∧ extractId line = none := by
  obtain ⟨first, others, letters, other, noMark⟩ := label_text_head label
  have rendered : (Entry.text label content).render =
      label.text.toList ++ ": ".toList ++ bounded content ++
        if Json.utf8Bytes (bounded content) < Json.utf8Bytes content then
          "\n[transcript truncated]".toList else [] := rfl
  have begins : (Entry.text label content).render.head? = some first := by
    rw [rendered, letters, List.cons_append, List.cons_append, List.cons_append, List.head?_cons]
  rw [Entry.freeLines]
  exact lines_of_head begins other noMark

theorem lines_budget (metadata : SessionMetadata) :
    ∃ line, (Entry.budget metadata).lines = line :: (Entry.budget metadata).freeLines ∧
      parseFinish line = none ∧ extractId line = none := by
  have begins : (Entry.budget metadata).render.head? = some 'm' := by
    unfold Entry.render
    simp only [List.append_assoc]
    rfl
  rw [Entry.freeLines]
  exact lines_of_head begins (by decide) (by decide)

/-! ## What is listed of a transcript -/

/-- The last finish that is written, and the entries behind it. -/
def sinceFinish : List Entry → Option (Finish × List Entry)
  | [] => none
  | .finished _ finish :: rest => (sinceFinish rest).or (some (finish, rest))
  | _ :: rest => sinceFinish rest

/-- The entries in front of the first start that is written. -/
def beforeStart : List Entry → Option (List Entry)
  | [] => none
  | .started _ _ :: _ => some []
  | entry :: rest => (beforeStart rest).map (entry :: ·)

/-- What there is to list: the last finish, or else an unfinished session where one started. -/
def expected (taskId : List Char) (entries : List Entry) : Option FinishMeta :=
  match sinceFinish entries with
  | some (finish, _) => some (recordOf taskId finish)
  | none => (beforeStart entries).map fun _ => unfinished taskId

def freeOf (entries : List Entry) : List (List Char) := entries.flatMap Entry.freeLines

/-- The name is read from the finish line, or else from the first start line. Without a finish it
is not read as one, and no line of a text in front of the start gives another name. -/
def Nameable (taskId : List Char) (entries : List Entry) : Prop :=
  match sinceFinish entries with
  | some _ => Named finishedMark taskId
  | none =>
      match beforeStart entries with
      | some before =>
          Named startedMark taskId ∧ Unread finishedMark taskId ∧
            ∀ other, firstId (freeOf before) = some other → other = taskId
      | none => firstId (freeOf entries) = none

/-- No line behind the first of a text reads as a finish line, and the name can be read. -/
structure Unforged (taskId : List Char) (entries : List Entry) : Prop where
  plain : ∀ line ∈ freeOf entries, parseFinish line = none
  nameable : Nameable taskId entries

/-- The names in the markers are that of the session. -/
def Carries (taskId : List Char) (entries : List Entry) : Prop :=
  ∀ entry ∈ entries, (∀ name seconds, entry = .started name seconds → name = taskId) ∧
    ∀ name finish, entry = .finished name finish → name = taskId

section Entries

variable {taskId : List Char} {entries : List Entry}

theorem sinceFinish_eq_some {finish : Finish} {later : List Entry}
    (found : sinceFinish entries = some (finish, later)) :
    ∃ front name, entries = front ++ .finished name finish :: later ∧ sinceFinish later = none := by
  induction entries with
  | nil => cases found
  | cons entry rest ih =>
      have further (behind : sinceFinish rest = some (finish, later)) :
          ∃ front name, entry :: rest = front ++ .finished name finish :: later ∧
            sinceFinish later = none := by
        obtain ⟨front, name, rfl, none⟩ := ih behind
        exact ⟨entry :: front, name, rfl, none⟩
      cases entry with
      | finished name other =>
          rcases Option.or_eq_some_iff.mp found with behind | ⟨none, here⟩
          · exact further behind
          · cases here
            exact ⟨[], name, rfl, none⟩
      | started name seconds => exact further found
      | budget metadata => exact further found
      | text label content => exact further found

theorem not_finished_of_none (none : sinceFinish entries = none) (name : List Char)
    (finish : Finish) : .finished name finish ∉ entries := by
  induction entries with
  | nil => exact List.not_mem_nil
  | cons entry rest ih =>
      rw [List.mem_cons, not_or]
      cases entry with
      | finished other present => cases (Option.or_eq_none_iff.mp none).2
      | started other seconds => exact ⟨by simp, ih none⟩
      | budget metadata => exact ⟨by simp, ih none⟩
      | text label content => exact ⟨by simp, ih none⟩

theorem beforeStart_eq_some {before : List Entry} (found : beforeStart entries = some before) :
    ∃ name seconds later, entries = before ++ .started name seconds :: later ∧
      ∀ name seconds, .started name seconds ∉ before := by
  induction entries generalizing before with
  | nil => cases found
  | cons entry rest ih =>
      have later {inner : List Entry} (behind : beforeStart rest = some inner)
          (same : entry :: inner = before) (other : ∀ name seconds, entry ≠ .started name seconds) :
          ∃ name seconds later, entry :: rest = before ++ .started name seconds :: later ∧
            ∀ name seconds, .started name seconds ∉ before := by
        obtain ⟨name, seconds, later, rfl, absent⟩ := ih behind
        refine ⟨name, seconds, later, by rw [← same]; rfl, fun name seconds => ?_⟩
        rw [← same, List.mem_cons, not_or]
        exact ⟨(other name seconds).symm, absent name seconds⟩
      cases entry with
      | started name seconds =>
          cases found
          exact ⟨name, seconds, rest, rfl, fun _ _ => List.not_mem_nil⟩
      | finished name finish =>
          obtain ⟨inner, behind, same⟩ := Option.map_eq_some_iff.mp found
          exact later behind same fun _ _ other => by cases other
      | budget metadata =>
          obtain ⟨inner, behind, same⟩ := Option.map_eq_some_iff.mp found
          exact later behind same fun _ _ other => by cases other
      | text label content =>
          obtain ⟨inner, behind, same⟩ := Option.map_eq_some_iff.mp found
          exact later behind same fun _ _ other => by cases other

theorem not_started_of_none (none : beforeStart entries = none) (name : List Char)
    (seconds : Nat) : .started name seconds ∉ entries := by
  induction entries with
  | nil => exact List.not_mem_nil
  | cons entry rest ih =>
      rw [List.mem_cons, not_or]
      cases entry with
      | started other time => cases none
      | finished other finish => exact ⟨by simp, ih (Option.map_eq_none_iff.mp none)⟩
      | budget metadata => exact ⟨by simp, ih (Option.map_eq_none_iff.mp none)⟩
      | text label content => exact ⟨by simp, ih (Option.map_eq_none_iff.mp none)⟩

/-- The lines of the texts are all that is read of entries without a finish, where the start lines
are not. -/
theorem lastRead_entries (carries : Carries taskId entries) (single : '\n' ∉ taskId)
    (unread : Unread finishedMark taskId)
    (unfinished : ∀ name finish, .finished name finish ∉ entries) :
    lastRead (entries.flatMap Entry.lines) = lastRead (freeOf entries) := by
  induction entries with
  | nil => rfl
  | cons entry rest ih =>
      have rests := ih (fun other member => carries other (List.mem_cons_of_mem _ member))
        fun name finish member => unfinished name finish (List.mem_cons_of_mem _ member)
      have first : lastRead entry.lines = lastRead entry.freeLines := by
        cases entry with
        | started name seconds =>
            obtain rfl := (carries _ List.mem_cons_self).1 name seconds rfl
            rw [lines_started single]
            simp [lastRead, Entry.freeLines, (parseFinish_started_iff name seconds).mpr unread]
        | finished name finish => exact absurd List.mem_cons_self (unfinished name finish)
        | budget metadata =>
            obtain ⟨line, lines, notRead, -⟩ := lines_budget metadata
            rw [lines, ← List.singleton_append, lastRead_append]
            simp [lastRead, notRead]
        | text label content =>
            obtain ⟨line, lines, notRead, -⟩ := lines_text label content
            rw [lines, ← List.singleton_append, lastRead_append]
            simp [lastRead, notRead]
      rw [List.flatMap_cons, freeOf, List.flatMap_cons, lastRead_append, lastRead_append, rests,
        first]
      rfl

theorem read_texts (unfinished : ∀ name finish, .finished name finish ∉ entries)
    (unstarted : ∀ name seconds, .started name seconds ∉ entries) :
    lastRead (entries.flatMap Entry.lines) = lastRead (freeOf entries) ∧
      firstId (entries.flatMap Entry.lines) = firstId (freeOf entries) := by
  induction entries with
  | nil => exact ⟨rfl, rfl⟩
  | cons entry rest ih =>
      obtain ⟨rests, names⟩ := ih
        (fun name finish member => unfinished name finish (List.mem_cons_of_mem _ member))
        fun name seconds member => unstarted name seconds (List.mem_cons_of_mem _ member)
      obtain ⟨line, lines, notRead, notNamed⟩ : ∃ line, entry.lines = line :: entry.freeLines ∧
          parseFinish line = none ∧ extractId line = none := by
        cases entry with
        | started name seconds => exact absurd List.mem_cons_self (unstarted name seconds)
        | finished name finish => exact absurd List.mem_cons_self (unfinished name finish)
        | budget metadata => exact lines_budget metadata
        | text label content => exact lines_text label content
      constructor
      · rw [List.flatMap_cons, freeOf, List.flatMap_cons, lines, ← List.singleton_append,
          List.append_assoc, lastRead_append, lastRead_append, rests, lastRead_append, freeOf]
        simp [lastRead, notRead]
      · rw [List.flatMap_cons, freeOf, List.flatMap_cons, lines, ← List.singleton_append,
          List.append_assoc, firstId_append, firstId_append, names, firstId_append, freeOf]
        simp [firstId, notNamed]

theorem named_of_lastRead {read : FinishMeta}
    (found : lastRead (entries.flatMap Entry.lines) = some read) : Named finishedMark read.id := by
  obtain ⟨line, member, parsed⟩ := List.exists_of_findSome?_eq_some found
  obtain ⟨entry, -, inside⟩ := List.mem_flatMap.mp (List.mem_reverse.mp member)
  exact named_of_parseFinish (not_mem_entry_lines inside) parsed

theorem named_of_firstId {name : List Char}
    (found : firstId (entries.flatMap Entry.lines) = some name) : Named startedMark name := by
  obtain ⟨line, member, extracted⟩ := List.exists_of_findSome?_eq_some found
  obtain ⟨entry, -, inside⟩ := List.mem_flatMap.mp member
  exact named_of_extractId (not_mem_entry_lines inside) extracted

def readEntries (entries : List Entry) : Option FinishMeta :=
  (lastRead (entries.flatMap Entry.lines)).or
    ((firstId (entries.flatMap Entry.lines)).map unfinished)

theorem readEntries_of_lastRead {read : FinishMeta}
    (found : lastRead (entries.flatMap Entry.lines) = some read) :
    readEntries entries = some read := by
  rw [readEntries, found]
  rfl

theorem readEntries_of_firstId (none : lastRead (entries.flatMap Entry.lines) = none) :
    readEntries entries = (firstId (entries.flatMap Entry.lines)).map unfinished := by
  rw [readEntries, none]
  rfl

theorem lastRead_eq_none {lines : List (List Char)}
    (plain : ∀ line ∈ lines, parseFinish line = none) : lastRead lines = none :=
  List.findSome?_eq_none_iff.mpr fun line member => plain line (List.mem_reverse.mp member)

/-- A finished session: the name of its last finish line decides. -/
theorem readEntries_finished_iff {finish : Finish} {later : List Entry}
    (carries : Carries taskId entries) (plain : ∀ line ∈ freeOf entries, parseFinish line = none)
    (found : sinceFinish entries = some (finish, later)) :
    readEntries entries = some (recordOf taskId finish) ↔ Named finishedMark taskId := by
  obtain ⟨front, name, rfl, none⟩ := sinceFinish_eq_some found
  obtain rfl := (carries (.finished name finish) (by simp)).2 name finish rfl
  have lines : lastRead ((front ++ .finished name finish :: later).flatMap Entry.lines) =
      (lastRead (later.flatMap Entry.lines)).or
        ((lastRead (Entry.finished name finish).lines).or (lastRead (front.flatMap Entry.lines))) := by
    rw [List.flatMap_append, lastRead_append, List.flatMap_cons, lastRead_append, Option.or_assoc]
  have behind (named : Named finishedMark name) : lastRead (later.flatMap Entry.lines) = .none := by
    rw [lastRead_entries (fun entry member => carries entry (by simp [member])) named.2.1
      (unread_of_named named) (not_finished_of_none none)]
    refine lastRead_eq_none fun line member => plain line ?_
    rw [freeOf, List.flatMap_append, List.flatMap_cons]
    exact List.mem_append_right _ (List.mem_append_right _ member)
  have here (named : Named finishedMark name) :
      lastRead (Entry.finished name finish).lines = some (recordOf name finish) := by
    rw [lines_finished named.2.1]
    simp [lastRead, parseFinish_finished named]
  constructor
  · intro result
    rcases Option.or_eq_some_iff.mp result with read | ⟨-, first⟩
    · exact named_of_lastRead read
    · obtain ⟨other, -, same⟩ := Option.map_eq_some_iff.mp first
      cases congrArg FinishMeta.turns same
  · intro named
    apply readEntries_of_lastRead
    rw [lines, behind named, here named]
    rfl

/-- A session that has started: its own start line is read if nothing else is. -/
theorem readEntries_started_iff {before : List Entry} (carries : Carries taskId entries)
    (plain : ∀ line ∈ freeOf entries, parseFinish line = none)
    (unfinished? : sinceFinish entries = none) (found : beforeStart entries = some before) :
    readEntries entries = some (unfinished taskId) ↔
      Named startedMark taskId ∧ Unread finishedMark taskId ∧
        ∀ other, firstId (freeOf before) = some other → other = taskId := by
  have absent := not_finished_of_none unfinished?
  have free (single : '\n' ∉ taskId) (unread : Unread finishedMark taskId) :
      lastRead (entries.flatMap Entry.lines) = none := by
    rw [lastRead_entries carries single unread absent, lastRead_eq_none plain]
  obtain ⟨name, seconds, later, rfl, unstarted⟩ := beforeStart_eq_some found
  obtain rfl := (carries (.started name seconds) (by simp)).1 name seconds rfl
  have names (single : '\n' ∉ name) :
      firstId ((before ++ .started name seconds :: later).flatMap Entry.lines) =
        (firstId (freeOf before)).or ((extractId (Entry.started name seconds).render).or
          (firstId (later.flatMap Entry.lines))) := by
    have texts := (read_texts (fun other finish member => absent other finish (by simp [member]))
      unstarted).2
    rw [List.flatMap_append, firstId_append, texts, List.flatMap_cons, firstId_append,
      lines_started single]
    simp [firstId]
  constructor
  · intro result
    rcases Option.or_eq_some_iff.mp result with read | ⟨nothing, first⟩
    · have named : Named finishedMark name := named_of_lastRead read
      rw [free named.2.1 (unread_of_named named)] at read
      cases read
    · obtain ⟨other, first, same⟩ := Option.map_eq_some_iff.mp first
      obtain rfl : other = name := congrArg FinishMeta.id same
      have named : Named startedMark other := named_of_firstId first
      have start : parseFinish (Entry.started other seconds).render = none := by
        refine List.findSome?_eq_none_iff.mp nothing _ (List.mem_reverse.mpr ?_)
        rw [List.mem_flatMap]
        exact ⟨.started other seconds, by simp, by rw [lines_started named.2.1]; simp⟩
      refine ⟨named, (parseFinish_started_iff other seconds).mp start, fun forged front => ?_⟩
      rw [names named.2.1, front, Option.some_or, Option.some.injEq] at first
      exact first
  · rintro ⟨named, unread, others⟩
    rw [readEntries_of_firstId (free named.2.1 unread), names named.2.1, extractId_started named]
    cases front : firstId (freeOf before) with
    | none => rfl
    | some other => rw [others other front]; rfl

/-- Where no line of a text reads as a finish line, what is read of the transcript is what there is
to list exactly if the name can be read. -/
theorem readEntries_iff (carries : Carries taskId entries)
    (plain : ∀ line ∈ freeOf entries, parseFinish line = none) :
    readEntries entries = expected taskId entries ↔ Nameable taskId entries := by
  rw [expected, Nameable]
  cases finished : sinceFinish entries with
  | some found => exact readEntries_finished_iff carries plain finished
  | none =>
      cases started : beforeStart entries with
      | some before => exact readEntries_started_iff carries plain finished started
      | none =>
          obtain ⟨reads, names⟩ := read_texts (not_finished_of_none finished)
            (not_started_of_none started)
          simp only [readEntries, reads, names, lastRead_eq_none plain, Option.map_none,
            Option.or_eq_none_iff, Option.map_eq_none_iff, true_and]

theorem parseFinish_texts_iff :
    (∀ entry ∈ entries, entry.isText = true → ∀ line ∈ entry.lines, parseFinish line = none) ↔
      ∀ line ∈ freeOf entries, parseFinish line = none := by
  have behind : ∀ entry : Entry, (entry.isText = true → ∀ line ∈ entry.lines,
      parseFinish line = none) ↔ ∀ line ∈ entry.freeLines, parseFinish line = none := by
    intro entry
    cases entry with
    | started name seconds => exact ⟨fun _ => nofun, fun _ => nofun⟩
    | finished name finish => exact ⟨fun _ => nofun, fun _ => nofun⟩
    | budget metadata =>
        obtain ⟨first, lines, unread, -⟩ := lines_budget metadata
        have isText : (Entry.budget metadata).isText = true := rfl
        rw [forall_prop_of_true isText, lines, List.forall_mem_cons, and_iff_right unread]
    | text label content =>
        obtain ⟨first, lines, unread, -⟩ := lines_text label content
        have isText : (Entry.text label content).isText = true := rfl
        rw [forall_prop_of_true isText, lines, List.forall_mem_cons, and_iff_right unread]
  rw [freeOf, List.forall_mem_flatMap]
  exact forall₂_congr fun entry _ => behind entry

end Entries

/-! ## Runs of the log -/

section Runs

variable {taskId : List Char}

theorem carries_append {front back : List Entry} (first : Carries taskId front)
    (second : Carries taskId back) : Carries taskId (front ++ back) := by
  intro entry member
  rcases List.mem_append.mp member with before | after
  · exact first entry before
  · exact second entry after

/-- What a call leaves as it is, and the name that it writes. -/
structure Keeps (log : SessionLog) (taskId : List Char) : Prop where
  name : log.taskId = taskId
  carries : Carries taskId log.transcript

namespace Keeps

variable {log : SessionLog}

theorem write (keeps : Keeps log taskId) {entry : Entry} (carries : Carries taskId [entry]) :
    Keeps (log.write entry) taskId :=
  ⟨keeps.name, carries_append keeps.carries carries⟩

theorem text (keeps : Keeps log taskId) (label : Label) (content : List Char) :
    Keeps (log.text label content) taskId := by
  apply keeps.write
  intro entry member
  obtain rfl := List.mem_singleton.mp member
  exact ⟨nofun, nofun⟩

theorem budget (keeps : Keeps log taskId) (metadata : SessionMetadata) :
    Keeps (log.write (.budget metadata)) taskId := by
  apply keeps.write
  intro entry member
  obtain rfl := List.mem_singleton.mp member
  exact ⟨nofun, nofun⟩

theorem started (keeps : Keeps log taskId) (seconds : Nat) :
    Keeps (log.write (.started log.taskId seconds)) taskId := by
  apply keeps.write
  intro entry member
  obtain rfl := List.mem_singleton.mp member
  refine ⟨fun _ _ same => ?_, nofun⟩
  cases same
  exact keeps.name

theorem finished (keeps : Keeps log taskId) (finish : Finish) :
    Keeps (log.write (.finished log.taskId finish)) taskId := by
  apply keeps.write
  intro entry member
  obtain rfl := List.mem_singleton.mp member
  refine ⟨nofun, fun _ _ same => ?_⟩
  cases same
  exact keeps.name

theorem call (keeps : Keeps log taskId) (call : Call) : Keeps (log.call call) taskId := by
  cases call with
  | toolFailure content => exact keeps.text _ _
  | notice message => exact keeps.text _ _
  | sessionStart seconds =>
      have reset : Keeps { log with
          prompt := log.prompt + 1, totalInputTokens := 0, totalOutputTokens := 0
          usageComplete := true, pendingUsage := false } taskId :=
        ⟨keeps.name, keeps.carries⟩
      have started := reset.started seconds
      rw [SessionLog.call, SessionLog.sessionStart]
      split
      · exact started
      · exact started.budget _
  | request messages attempt =>
      have pending : Keeps { log with
          usageComplete := log.usageComplete && !log.pendingUsage, pendingUsage := true } taskId :=
        ⟨keeps.name, keeps.carries⟩
      rw [SessionLog.call, SessionLog.request]
      split
      · split
        · exact pending.text _ _
        · exact pending
      · exact pending
  | turnStart content reasoning =>
      cases reasoning with
      | none => exact keeps.text _ _
      | some reasoning => exact (keeps.text _ _).text _ _
  | turnFinish usage => cases usage <;> exact ⟨keeps.name, keeps.carries⟩
  | toolResult stdout stderr => exact (keeps.text _ _).text _ _
  | sessionFinish summary seconds =>
      have complete : Keeps { log with
          usageComplete := log.usageComplete && !log.pendingUsage } taskId :=
        ⟨keeps.name, keeps.carries⟩
      rw [SessionLog.call, SessionLog.sessionFinish]
      cases summary.stopReason <;> cases summary.failure
      · exact complete.finished _
      · exact (complete.finished _).text _ _
      · exact (complete.text _ _).finished _
      · exact ((complete.text _ _).finished _).text _ _

end Keeps

/-- Every marker that a run writes has the name of the session. -/
theorem carries_run (taskId : List Char) (metadata : Option SessionMetadata) (calls : List Call) :
    Carries taskId (SessionLog.run taskId metadata calls).transcript := by
  have kept : ∀ (calls : List Call) (log : SessionLog), Keeps log taskId →
      Keeps (calls.foldl SessionLog.call log) taskId := by
    intro calls
    induction calls with
    | nil => exact fun _ keeps => keeps
    | cons call rest ih => exact fun log keeps => ih _ (keeps.call call)
  exact (kept calls _ ⟨rfl, fun _ member => absurd member List.not_mem_nil⟩).carries

theorem parseTranscriptMeta_bytes (log : SessionLog) :
    parseTranscriptMeta log.bytes =
      if maxListedBytes < log.bytes.length then none else readEntries log.transcript := by
  have text : log.transcript.flatMap (fun entry => entry.render ++ ['\n']) =
      (log.transcript.map Entry.render).flatMap (· ++ ['\n']) := by
    rw [List.flatMap_map]
  have lines : Text.lines (Utf8.fromUtf8Lossy log.bytes) = log.transcript.flatMap Entry.lines := by
    rw [SessionLog.bytes, Utf8.fromUtf8Lossy_utf8, text, lines_flatMap, List.flatMap_map]
    rfl
  rw [parseTranscriptMeta, lines, foldl_scanLine, Option.or_none, Option.none_or]
  rfl

/-- What is listed of a session is the last finish that the log wrote, or an unfinished session,
and no logged text is read as a finish: exactly where the transcript is within the bound and no line
of it is forged. -/
theorem parseTranscriptMeta_iff (taskId : List Char) (metadata : Option SessionMetadata)
    (calls : List Call) :
    let log := SessionLog.run taskId metadata calls
    (parseTranscriptMeta log.bytes = expected taskId log.transcript ∧
      (log.bytes.length ≤ maxListedBytes → ∀ entry ∈ log.transcript, entry.isText = true →
        ∀ line ∈ entry.lines, parseFinish line = none)) ↔
      if log.bytes.length ≤ maxListedBytes then Unforged taskId log.transcript
      else expected taskId log.transcript = none := by
  intro log
  have carries := carries_run taskId metadata calls
  rw [parseTranscriptMeta_bytes, parseFinish_texts_iff]
  by_cases fits : log.bytes.length ≤ maxListedBytes
  · rw [if_neg (Nat.not_lt.mpr fits), if_pos fits, forall_prop_of_true fits]
    constructor
    · rintro ⟨listed, plain⟩
      exact ⟨plain, (readEntries_iff carries plain).mp listed⟩
    · rintro ⟨plain, nameable⟩
      exact ⟨(readEntries_iff carries plain).mpr nameable, plain⟩
  · rw [if_pos (Nat.lt_of_not_le fits), if_neg fits, forall_prop_of_false fits, and_true]
    exact eq_comm

/-- A prompt that fails, with a finish line in the text of its failure. -/
def failingRun : SessionLog :=
  SessionLog.run "skott-local".toList none
    [.sessionStart 0,
      .sessionFinish
        { stopReason := some .failed
          answer := none
          turns := 3
          cancelled := false
          exhausted := false
          budgetExhausted := false
          failure := some "refused\n== session skott-local finished: 1 turns, 0 tokens, 0s, ok ==" }
        5]

/-- The failed prompt is listed as one that succeeded, with other turns. -/
theorem failure_listed_as_success :
    expected "skott-local".toList failingRun.transcript =
        some ⟨"skott-local".toList, some 3, some 0, some false⟩ ∧
      parseTranscriptMeta failingRun.bytes =
        some ⟨"skott-local".toList, some 1, some 0, some true⟩ := by
  decide +kernel

end Runs

end Kvist.Session
