import Kvist.TextLines

/-!
# The structure of Markdown

Each line of a document is told apart as a heading, a part of a fenced block or a part of a comment.
What is open before a line is all that the lines before it matter for.
-/

set_option autoImplicit false

namespace Kvist.Markdown

open Text

/-- A line with what it is. -/
structure Line where
  text : List Char
  heading : Option Nat
  code : Bool
  comment : Bool

/-- What is open before a line: a fence of some length, and a comment. -/
structure Scanner where
  fence : Option (Char × Nat)
  comment : Bool

namespace Scanner

def start : Scanner := ⟨none, false⟩

end Scanner

/-! ## Single lines -/

def commentStart : List Char := "<!--".toList

def unindented (text : List Char) : List Char := text.dropWhile (· = ' ')

def indent (text : List Char) : Nat := (text.takeWhile (· = ' ')).length

/-- The character that a fence could be made of, and how many of it stand there. -/
def fenceStart (text : List Char) : Option Char :=
  (unindented text).head?.filter fun character =>
    indent text ≤ 3 && (character = '\x60' || character = '~')

def fenceRun (text : List Char) : Nat :=
  match fenceStart text with
  | none => 0
  | some mark => ((unindented text).takeWhile (· = mark)).length

def fenceAfter (scanner : Scanner) (text : List Char) : Option (Char × Nat) :=
  let behind := (unindented text).drop (fenceRun text)
  match scanner.fence with
  | some (mark, length) =>
      if fenceStart text = some mark && length ≤ fenceRun text && (trimList behind).isEmpty then none
      else some (mark, length)
  | none =>
      if !scanner.comment && 3 ≤ fenceRun text &&
          !(fenceStart text = some '\x60' && behind.contains '\x60') then
        (fenceStart text).map fun mark => (mark, fenceRun text)
      else none

/-- Whether a comment is open behind a text. -/
def commentAfter : Bool → List Char → Bool
  | comment, [] => comment
  | false, '<' :: '!' :: '-' :: '-' :: rest => commentAfter true rest
  | true, '-' :: '-' :: '>' :: rest => commentAfter false rest
  | comment, _ :: rest => commentAfter comment rest

def headingLevel (text : List Char) : Option Nat :=
  let level := ((unindented text).takeWhile (· = '#')).length
  if 0 < level ∧ level ≤ 6 ∧ (((unindented text).drop level).head?.all isWhitespace) then some level
  else none

def startsComment (text : List Char) : Bool := commentStart.isPrefixOf (trimStart text)

/-- The line is code where a fence is open before or behind it. -/
def isCode (scanner : Scanner) (text : List Char) : Bool :=
  scanner.fence.isSome || (fenceAfter scanner text).isSome

def next (scanner : Scanner) (text : List Char) : Scanner :=
  ⟨fenceAfter scanner text,
    if isCode scanner text then scanner.comment else commentAfter scanner.comment text⟩

def readLine (scanner : Scanner) (text : List Char) : Line where
  text := text
  heading :=
    if !isCode scanner text && !scanner.comment && !startsComment text && indent text ≤ 3 then
      headingLevel text
    else none
  code := isCode scanner text
  comment := scanner.comment || startsComment text

/-! ## Documents -/

def readLines : Scanner → List (List Char) → List Line
  | _, [] => []
  | scanner, text :: rest => readLine scanner text :: readLines (next scanner text) rest

/-- What is open behind the lines. -/
def behind (scanner : Scanner) (texts : List (List Char)) : Scanner := texts.foldl next scanner

def scan (contents : List Char) : List Line := readLines .start (lines contents)

/-- The line says something: it is no heading, no comment and not blank. -/
def Line.isContent (line : Line) : Bool :=
  !(trimList line.text).isEmpty && line.heading.isNone && !line.comment

/-- Whether something is said between the heading and the next one of its level. -/
def sectionHasContent (document : List Line) (index : Nat) : Bool :=
  let level := ((document[index]?).bind (·.heading)).getD 2
  ((document.drop (index + 1)).takeWhile fun line =>
    line.heading.all fun heading => level < heading).any Line.isContent

/-! ## Blockers -/

def blockerPrefix : List Char := "<!-- kvist-recovery-blocker:".toList

/-- `text.trim_start_matches(pattern)`, where the pattern is not empty. -/
def trimStartMatches (pattern text : List Char) : List Char :=
  let rec strip : Nat → List Char → List Char
    | 0, text => text
    | fuel + 1, text => (stripLeading pattern text).elim text (strip fuel)
  strip text.length text

/-- `text.trim_end_matches(pattern)`, where the pattern is not empty. -/
def trimEndMatches (pattern text : List Char) : List Char :=
  (trimStartMatches pattern.reverse text.reverse).reverse

def commentEnd : List Char := "-->".toList

def blockerReason (line : Line) : Option (List Char) :=
  if line.code then none
  else (stripLeading blockerPrefix (trimList line.text)).map fun reason =>
    trimList (trimEndMatches commentEnd (trimList reason))

def blockers (contents : List Char) : List (List Char) := (scan contents).filterMap blockerReason

def draftLines (reason : List Char) : List (List Char) :=
  [blockerPrefix ++ ' ' :: reason ++ " -->".toList,
    "Recovery draft: ".toList ++ reason ++
      ". Resolve this placeholder before accepting intent or executing tasks.".toList]

def draft (reason : List Char) : List Char := (draftLines reason).flatMap (· ++ ['\n'])

/-! ## Lines behind lines -/

variable {scanner : Scanner} {text : List Char} {front back : List (List Char)}

theorem behind_append (scanner : Scanner) (front back : List (List Char)) :
    behind scanner (front ++ back) = behind (behind scanner front) back :=
  List.foldl_append

theorem readLines_append (scanner : Scanner) (front back : List (List Char)) :
    readLines scanner (front ++ back) =
      readLines scanner front ++ readLines (behind scanner front) back := by
  induction front generalizing scanner with
  | nil => rfl
  | cons text rest ih =>
      rw [List.cons_append, readLines, readLines, ih, List.cons_append]
      rfl

theorem readLines_texts (scanner : Scanner) (texts : List (List Char)) :
    (readLines scanner texts).map (·.text) = texts := by
  induction texts generalizing scanner with
  | nil => rfl
  | cons text rest ih =>
      rw [readLines, List.map_cons, ih]
      rfl

/-- A heading stands where nothing is open. -/
theorem start_of_heading {level : Nat} (heading : (readLine scanner text).heading = some level) :
    scanner = .start := by
  obtain ⟨fence, comment⟩ := scanner
  rw [readLine] at heading
  dsimp only at heading
  split_ifs at heading with outside
  simp only [Bool.and_eq_true, Bool.not_eq_true'] at outside
  obtain ⟨⟨⟨code, uncommented⟩, _⟩, _⟩ := outside
  rw [isCode, Bool.or_eq_false_iff] at code
  obtain rfl : fence = none := Option.isSome_eq_false_iff.mp code.1 |> Option.isNone_iff_eq_none.mp
  obtain rfl : comment = false := uncommented
  rfl

/-! ## Carriage returns at the ends of lines -/

theorem dropCarriageReturn_cases (text : List Char) :
    dropCarriageReturn text = text ∨
      ∃ base, text = base ++ ['\r'] ∧ dropCarriageReturn text = base := by
  rw [dropCarriageReturn]
  split
  · next rest reversed =>
      refine .inr ⟨rest.reverse, ?_, rfl⟩
      rw [← List.reverse_reverse text, reversed, List.reverse_cons]
  · exact .inl rfl

variable {base : List Char}

theorem unindented_return : unindented (base ++ ['\r']) = unindented base ++ ['\r'] := by
  rw [unindented, unindented, List.dropWhile_append]
  split_ifs with blank
  · rw [List.isEmpty_iff.mp blank]
    rfl
  · rfl

theorem takeWhile_return {test : Char → Bool} (stops : test '\r' = false) :
    (base ++ ['\r']).takeWhile test = base.takeWhile test := by
  rw [List.takeWhile_append]
  split_ifs with whole
  · rw [List.takeWhile_cons_of_neg (Bool.not_eq_true _ ▸ stops), List.append_nil]
    exact ((List.takeWhile_prefix test).eq_of_length whole).symm
  · rfl

theorem indent_return : indent (base ++ ['\r']) = indent base := by
  rw [indent, indent, takeWhile_return (by decide)]

theorem fenceStart_return : fenceStart (base ++ ['\r']) = fenceStart base := by
  rw [fenceStart, fenceStart, unindented_return, indent_return]
  cases unindented base with
  | nil => simp
  | cons first rest => rfl

theorem fenceStart_mark {mark : Char} (starts : fenceStart base = some mark) :
    (decide ('\r' = mark)) = false := by
  rw [fenceStart, Option.filter_eq_some_iff] at starts
  have marks := starts.2
  rw [decide_eq_false_iff_not]
  rintro rfl
  simp at marks

theorem fenceRun_return : fenceRun (base ++ ['\r']) = fenceRun base := by
  rw [fenceRun, fenceRun, fenceStart_return]
  cases starts : fenceStart base with
  | none => rfl
  | some mark =>
      dsimp only
      rw [unindented_return, takeWhile_return (fenceStart_mark starts)]

theorem trimStart_return : trimStart (base ++ ['\r']) =
    if (trimStart base).isEmpty then [] else trimStart base ++ ['\r'] :=
  List.dropWhile_append

theorem trimList_return : trimList (base ++ ['\r']) = trimList base := by
  rw [trimList, trimList, trimStart_return]
  split_ifs with blank
  · rw [List.isEmpty_iff.mp blank]
  · exact List.rdropWhile_concat_pos _ _ _ (by decide)

/-- What begins with an ordinary character and is found behind a carriage return was there before. -/
theorem append_return_eq {front rest tail : List Char} (plain : '\r' ∉ front)
    (same : rest ++ ['\r'] = front ++ tail) : ∃ inner, rest = front ++ inner := by
  rcases List.append_eq_append_iff.mp same with ⟨more, longer, last⟩ | ⟨inner, found, _⟩
  · cases more with
    | nil => exact ⟨[], by rw [longer, List.append_nil, List.append_nil]⟩
    | cons first others =>
        rw [List.cons_append, List.cons.injEq] at last
        refine absurd ?_ plain
        rw [longer, last.1]
        exact List.mem_append_right _ List.mem_cons_self
  · exact ⟨inner, found⟩

theorem commentAfter_return (comment : Bool) :
    commentAfter comment (base ++ ['\r']) = commentAfter comment base := by
  induction comment, base using commentAfter.induct with
  | case1 comment => cases comment <;> rfl
  | case2 rest ih => exact ih
  | case3 rest ih => exact ih
  | case4 comment character rest opened closed ih =>
      rw [List.cons_append, commentAfter.eq_4, commentAfter.eq_4, ih]
      · exact opened
      · exact closed
      · intro tail uncommented start same
        obtain ⟨inner, found⟩ := @append_return_eq ['!', '-', '-'] rest tail (by decide) same
        exact opened inner uncommented start found
      · intro tail commented dash same
        obtain ⟨inner, found⟩ := @append_return_eq ['-', '>'] rest tail (by decide) same
        exact closed inner commented dash found

theorem fenceAfter_return (scanner : Scanner) :
    fenceAfter scanner (base ++ ['\r']) = fenceAfter scanner base := by
  have short : fenceRun base ≤ (unindented base).length := by
    rw [fenceRun]
    split
    · exact Nat.zero_le _
    · exact (List.takeWhile_sublist _).length_le
  have behind : (unindented (base ++ ['\r'])).drop (fenceRun base) =
      (unindented base).drop (fenceRun base) ++ ['\r'] := by
    rw [unindented_return, List.drop_append_of_le_length short]
  have marks : ((unindented base).drop (fenceRun base) ++ ['\r']).contains '\x60' =
      ((unindented base).drop (fenceRun base)).contains '\x60' := by
    rw [List.contains_append]
    exact Bool.or_false _
  rw [fenceAfter, fenceAfter, fenceRun_return, fenceStart_return, behind, trimList_return, marks]

theorem headingLevel_return : headingLevel (base ++ ['\r']) = headingLevel base := by
  have ended : ∀ text : List Char,
      (text ++ ['\r']).head?.all isWhitespace = text.head?.all isWhitespace := by
    intro text
    cases text with
    | nil => decide
    | cons first rest => rfl
  have short : ((unindented base).takeWhile (· = '#')).length ≤ (unindented base).length :=
    (List.takeWhile_sublist _).length_le
  rw [headingLevel, headingLevel, unindented_return, takeWhile_return (by decide),
    List.drop_append_of_le_length short, ended]

theorem startsComment_return : startsComment (base ++ ['\r']) = startsComment base := by
  rw [startsComment, startsComment, trimStart_return]
  split_ifs with blank
  · rw [List.isEmpty_iff.mp blank]
  · rw [Bool.eq_iff_iff, List.isPrefixOf_iff_prefix, List.isPrefixOf_iff_prefix]
    constructor
    · rintro ⟨tail, same⟩
      obtain ⟨inner, found⟩ := @append_return_eq commentStart _ tail (by decide) same.symm
      exact ⟨inner, found.symm⟩
    · exact fun starts => starts.trans (List.prefix_append _ _)

theorem readLine_dropCarriageReturn (scanner : Scanner) (text : List Char) :
    readLine scanner (dropCarriageReturn text) =
      { readLine scanner text with text := dropCarriageReturn text } ∧
    next scanner (dropCarriageReturn text) = next scanner text := by
  rcases dropCarriageReturn_cases text with same | ⟨base, rfl, same⟩
  · rw [same]
    exact ⟨rfl, rfl⟩
  · rw [same]
    have code : isCode scanner (base ++ ['\r']) = isCode scanner base := by
      rw [isCode, isCode, fenceAfter_return]
    constructor
    · rw [readLine, readLine, code, startsComment_return, indent_return, headingLevel_return]
    · rw [next, next, code, fenceAfter_return, commentAfter_return]

theorem trimList_dropCarriageReturn (text : List Char) :
    trimList (dropCarriageReturn text) = trimList text := by
  rcases dropCarriageReturn_cases text with same | ⟨base, rfl, same⟩
  · rw [same]
  · rw [same, trimList_return]

def Line.unreturned (line : Line) : Line := { line with text := dropCarriageReturn line.text }

theorem isContent_unreturned (line : Line) : line.unreturned.isContent = line.isContent := by
  rw [Line.isContent, Line.isContent, Line.unreturned, trimList_dropCarriageReturn]

theorem readLines_dropCarriageReturn (scanner : Scanner) (texts : List (List Char)) :
    readLines scanner (texts.map dropCarriageReturn) =
      (readLines scanner texts).map Line.unreturned ∧
    behind scanner (texts.map dropCarriageReturn) = behind scanner texts := by
  induction texts generalizing scanner with
  | nil => exact ⟨rfl, rfl⟩
  | cons text rest ih =>
      obtain ⟨read, after⟩ := readLine_dropCarriageReturn scanner text
      obtain ⟨others, last⟩ := ih (next scanner text)
      constructor
      · rw [List.map_cons, readLines, readLines, List.map_cons, read, after, others]
        rfl
      · rw [List.map_cons, behind, List.foldl_cons, after]
        exact last

end Kvist.Markdown
