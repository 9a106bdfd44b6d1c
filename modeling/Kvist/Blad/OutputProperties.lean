import Kvist.Blad.Output

/-!
# What reaches the terminal

The bytes passed on do not depend on how they were split into writes. Text is passed on as it is,
and every control sequence that is passed on is complete and of a form that the terminal supports.
-/

set_option autoImplicit false

namespace Kvist.Blad

open Json (utf8)

variable {options : RenderOptions}

/-! ## Splitting -/

/-- The output as it is after a write. -/
def Output.settled (output : Output) : Output :=
  { output with passed := output.passed ++ output.text, text := [] }

theorem Output.settled_of_text {output : Output} (empty : output.text = []) :
    output.settled = output := by
  obtain ⟨sequence, passed, text⟩ := output
  change text = [] at empty
  rw [Output.settled, empty, List.append_nil]

/-- A failure comes when no text is left over. -/
theorem writeByte_error {output next : Output} {byte : UInt8} {error : OutputError}
    (failed : writeByte options output byte = (next, .error error)) : next.text = [] := by
  rw [writeByte] at failed
  split at failed
  · exact absurd (congrArg Prod.snd failed) nofun
  · rw [writeControl] at failed
    split at failed
    · obtain ⟨rfl, -⟩ := Prod.mk.inj failed
      rfl
    · split at failed
      · dsimp only at failed
        split at failed
        · exact absurd (congrArg Prod.snd failed) nofun
        · obtain ⟨rfl, -⟩ := Prod.mk.inj failed
          rfl
      · exact absurd (congrArg Prod.snd failed) nofun

theorem writeByte_settled (output : Output) (byte : UInt8) :
    ((writeByte options output.settled byte).1.settled,
      (writeByte options output.settled byte).2) =
    ((writeByte options output byte).1.settled, (writeByte options output byte).2) := by
  rw [writeByte, writeByte]
  by_cases plain : (output.sequence.isEmpty && byte != escape) = true
  · have same : (output.settled.sequence.isEmpty && byte != escape) = true := plain
    rw [if_pos plain, if_pos same]
    simp only [Output.settled, List.nil_append, List.append_assoc]
  · have same : ¬ (output.settled.sequence.isEmpty && byte != escape) = true := plain
    rw [if_neg plain, if_neg same]
    simp only [writeControl, Output.settled, List.append_nil]

theorem writeBytes_settled (bytes : List UInt8) (output : Output) :
    ((writeBytes options output.settled bytes).1.settled,
      (writeBytes options output.settled bytes).2) =
    ((writeBytes options output bytes).1.settled, (writeBytes options output bytes).2) := by
  induction bytes generalizing output with
  | nil =>
      change (output.settled.settled, _) = (output.settled, _)
      rw [Output.settled_of_text rfl]
      rfl
  | cons byte rest ih =>
      have step := @writeByte_settled options output byte
      rw [Prod.mk.injEq] at step
      obtain ⟨states, results⟩ := step
      rw [writeBytes, writeBytes]
      generalize writeByte options output.settled byte = early at states results
      generalize writeByte options output byte = late at states results
      obtain ⟨early, result⟩ := early
      obtain ⟨late, other⟩ := late
      change early.settled = late.settled at states
      change result = other at results
      subst results
      cases result with
      | error error => exact congrArg (·, _) states
      | ok value =>
          have first := ih early
          rw [states, ih late] at first
          exact first.symm

theorem writeBytes_append (front back : List UInt8) (output : Output) :
    writeBytes options output (front ++ back) =
      match writeBytes options output front with
      | (next, .ok ()) => writeBytes options next back
      | (next, .error error) => (next, .error error) := by
  induction front generalizing output with
  | nil => rfl
  | cons byte rest ih =>
      rw [List.cons_append, writeBytes, writeBytes]
      split
      · exact ih _
      · rfl

theorem writeBytes_error {bytes : List UInt8} {output next : Output} {error : OutputError}
    (failed : writeBytes options output bytes = (next, .error error)) : next.text = [] := by
  induction bytes generalizing output with
  | nil => exact absurd (congrArg Prod.snd failed) nofun
  | cons byte rest ih =>
      rw [writeBytes] at failed
      split at failed
      · exact ih failed
      · rename_i stopped
        obtain ⟨rfl, -⟩ := Prod.mk.inj failed
        exact writeByte_error stopped

theorem write_eq (output : Output) (bytes : List UInt8) :
    write options output bytes =
      ((writeBytes options output bytes).1.settled, (writeBytes options output bytes).2) := by
  rw [write]
  split
  · rename_i written
    rw [written]
    rfl
  · rename_i written
    rw [written, Output.settled_of_text (writeBytes_error written)]

theorem writeAll_eq (chunks : List (List UInt8)) {output : Output} (empty : output.text = []) :
    writeAll options output chunks = write options output chunks.flatten := by
  induction chunks generalizing output with
  | nil => exact congrArg (·, _) (Output.settled_of_text empty).symm
  | cons bytes rest ih =>
      rw [writeAll, List.flatten_cons, write_eq, write_eq, writeBytes_append]
      generalize writeBytes options output bytes = first
      obtain ⟨next, result⟩ := first
      cases result with
      | error error => rfl
      | ok value =>
          dsimp only
          rw [@ih next.settled rfl, write_eq, writeBytes_settled]

/-! ## Reading -/

/-- What a write is made of: a byte of text, or a complete control sequence. -/
inductive Token where
  | text (byte : UInt8)
  | control (body : List UInt8)

def isParameter (byte : UInt8) : Bool := isDigit byte || byte == semicolon

def Token.source : Token → List UInt8
  | .text byte => [byte]
  | .control body => escape :: bracket :: (body ++ [letterM])

/-- A control sequence takes at most 64 bytes. -/
def Token.Formed : Token → Prop
  | .text byte => byte ≠ escape
  | .control body => body.all isParameter = true ∧ body.length ≤ 61

def Token.encoded (options : RenderOptions) : Token → Passed
  | .text byte => ([byte], .ok ())
  | .control body => sgr options body

def Token.Accepted (options : RenderOptions) (token : Token) : Prop :=
  token.Formed ∧ (token.encoded options).2 = .ok ()

def sources (tokens : List Token) : List UInt8 := tokens.flatMap Token.source

def passedBytes (options : RenderOptions) (tokens : List Token) : List UInt8 :=
  tokens.flatMap fun token => (token.encoded options).1

theorem sources_append (front back : List Token) :
    sources (front ++ back) = sources front ++ sources back := List.flatMap_append

theorem passedBytes_append (front back : List Token) :
    passedBytes options (front ++ back) = passedBytes options front ++ passedBytes options back :=
  List.flatMap_append

/-- A control sequence that is not complete yet. -/
def OpenControl (sequence : List UInt8) : Prop :=
  sequence = [] ∨ sequence = [escape] ∨ ∃ body,
    sequence = escape :: bracket :: body ∧ body.all isParameter = true ∧ body.length ≤ 62

/-- The input so far is these tokens and the open sequence. -/
structure Reads (options : RenderOptions) (input : List UInt8) (tokens : List Token)
    (output : Output) : Prop where
  accepted : ∀ token ∈ tokens, token.Accepted options
  consumed : input = sources tokens ++ output.sequence
  passed : output.passed ++ output.text = passedBytes options tokens
  opened : OpenControl output.sequence

/-- No control sequence starts like this. -/
def Refused (sequence : List UInt8) : Prop :=
  ∀ body, (Token.control body).Formed → ¬ sequence <+: (Token.control body).source

/-- The input so far ends with what makes the write fail. -/
structure Stops (options : RenderOptions) (input : List UInt8) (tokens : List Token)
    (output : Output) (error : OutputError) : Prop where
  accepted : ∀ token ∈ tokens, token.Accepted options
  failed :
    (error = .unexpectedControl ∧ Refused output.sequence ∧
      input = sources tokens ++ output.sequence ∧ output.passed = passedBytes options tokens) ∨
    ∃ body, (Token.control body).Formed ∧ (sgr options body).2 = .error error ∧
      input = sources tokens ++ (Token.control body).source ∧
      output.passed = passedBytes options tokens ++ (sgr options body).1

theorem refused_short {byte : UInt8} (other : byte ≠ bracket) : Refused [escape, byte] := by
  intro body _ starts
  rw [Token.source, List.cons_prefix_cons, List.cons_prefix_cons] at starts
  exact other starts.2.1

theorem refused_long {body : List UInt8} {byte : UInt8}
    (unexpected : isUnexpected (escape :: bracket :: (body ++ [byte])) byte = true) :
    Refused (escape :: bracket :: (body ++ [byte])) := by
  rintro whole ⟨parameters, short⟩ starts
  rw [Token.source, List.cons_prefix_cons, List.cons_prefix_cons] at starts
  have prefixed := starts.2.2
  have length := prefixed.length_le
  have member : byte ∈ whole ++ [letterM] := prefixed.subset (by simp)
  have kind : isParameter byte = true ∨ byte = letterM := by
    rcases List.mem_append.mp member with inside | last
    · exact .inl (List.all_eq_true.mp parameters byte inside)
    · exact .inr (List.mem_singleton.mp last)
  simp only [List.length_append, List.length_singleton] at length
  simp only [isUnexpected, List.length_cons, List.length_append, List.length_nil, Bool.or_eq_true,
    Bool.and_eq_true, decide_eq_true_eq, beq_iff_eq, bne_iff_ne, Bool.not_eq_true',
    Bool.or_eq_false_iff, beq_eq_false_iff_ne] at unexpected
  rw [isParameter, Bool.or_eq_true, beq_iff_eq] at kind
  rcases unexpected with (long | two) | ⟨⟨-, digit⟩, separator, final⟩
  · omega
  · omega
  · rcases kind with (number | between) | ends
    · rw [digit] at number
      cases number
    · exact separator between
    · exact final ends

/-! ## One byte -/

/-- How the input goes on after a byte. -/
def Continues (options : RenderOptions) (input : List UInt8) (tokens : List Token)
    (next : Output × Except OutputError Unit) : Prop :=
  match next.2 with
  | .ok () => ∃ more, Reads options input (tokens ++ more) next.1
  | .error error => Stops options input tokens next.1 error

variable {input : List UInt8} {tokens : List Token} {output : Output}

theorem drop_dropLast (body : List UInt8) (byte : UInt8) :
    ((escape :: bracket :: body ++ [byte]).drop 2).dropLast = body := by
  rw [List.cons_append, List.cons_append, List.drop_succ_cons, List.drop_succ_cons, List.drop_zero,
    List.dropLast_concat]

theorem writeControl_complete {body : List UInt8} (reads : Reads options input tokens output)
    (sequence : output.sequence = escape :: bracket :: body)
    (parameters : body.all isParameter = true)
    (expected : isUnexpected (output.sequence ++ [letterM]) letterM = false) :
    Continues options (input ++ [letterM]) tokens (writeControl options output letterM) := by
  have short : body.length ≤ 61 := by
    rw [sequence, isUnexpected, Bool.or_eq_false_iff, Bool.or_eq_false_iff] at expected
    have small := expected.1.1
    simp only [List.length_append, List.length_cons, List.length_nil,
      decide_eq_false_iff_not] at small
    omega
  have formed : (Token.control body).Formed := ⟨parameters, short⟩
  have consumed : input ++ [letterM] = sources tokens ++ (Token.control body).source := by
    rw [reads.consumed, sequence, List.append_assoc]
    rfl
  rw [writeControl]
  dsimp only
  rw [expected, if_neg Bool.false_ne_true, if_pos (beq_self_eq_true _), sequence, drop_dropLast]
  cases ended : (sgr options body).2 with
  | error error =>
      refine ⟨reads.accepted, .inr ⟨body, formed, ended, consumed, ?_⟩⟩
      dsimp only
      rw [reads.passed]
  | ok value =>
      refine ⟨[.control body], ?_, ?_, ?_, .inl rfl⟩
      · intro token member
        rcases List.mem_append.mp member with earlier | last
        · exact reads.accepted token earlier
        · rw [List.mem_singleton.mp last]
          exact ⟨formed, ended⟩
      · rw [consumed, sources_append, List.append_nil]
        exact congrArg (sources tokens ++ ·) (List.append_nil _).symm
      · dsimp only
        rw [reads.passed, passedBytes_append, List.append_nil]
        exact congrArg (passedBytes options tokens ++ ·) (List.append_nil _).symm

theorem writeControl_open {byte : UInt8} (reads : Reads options input tokens output)
    (expected : isUnexpected (output.sequence ++ [byte]) byte = false) (other : byte ≠ letterM)
    (opened : OpenControl (output.sequence ++ [byte])) :
    Continues options (input ++ [byte]) tokens (writeControl options output byte) := by
  rw [writeControl]
  dsimp only
  rw [expected, if_neg Bool.false_ne_true, if_neg (by rwa [beq_iff_eq])]
  refine ⟨[], ?_, ?_, ?_, opened⟩
  · rw [List.append_nil]
    exact reads.accepted
  · rw [reads.consumed, List.append_nil, List.append_assoc]
  · dsimp only
    rw [reads.passed, List.append_nil, List.append_nil]

theorem writeControl_refused {byte : UInt8} (reads : Reads options input tokens output)
    (unexpected : isUnexpected (output.sequence ++ [byte]) byte = true)
    (refused : Refused (output.sequence ++ [byte])) :
    Continues options (input ++ [byte]) tokens (writeControl options output byte) := by
  rw [writeControl]
  dsimp only
  rw [unexpected, if_pos rfl]
  refine ⟨reads.accepted, .inl ⟨rfl, refused, ?_, reads.passed⟩⟩
  rw [reads.consumed, List.append_assoc]

theorem writeControl_continues {byte : UInt8} (reads : Reads options input tokens output)
    (started : output.sequence ≠ [] ∨ byte = escape) :
    Continues options (input ++ [byte]) tokens (writeControl options output byte) := by
  rcases reads.opened with none | one | ⟨body, sequence, parameters, length⟩
  · have first : byte = escape := started.resolve_left fun some => some none
    subst first
    refine writeControl_open reads ?_ (by decide) ?_
    · rw [none]
      decide
    · rw [none]
      exact .inr (.inl rfl)
  · by_cases second : byte = bracket
    · subst second
      refine writeControl_open reads ?_ (by decide) ?_
      · rw [one]
        decide
      · rw [one]
        exact .inr (.inr ⟨[], rfl, rfl, Nat.zero_le _⟩)
    · refine writeControl_refused reads ?_ (one ▸ refused_short second)
      rw [one, isUnexpected]
      simp [second]
  · cases unexpected : isUnexpected (output.sequence ++ [byte]) byte with
    | true =>
        refine writeControl_refused reads unexpected ?_
        rw [sequence] at unexpected ⊢
        exact refused_long unexpected
    | false =>
        by_cases last : byte = letterM
        · subst last
          exact writeControl_complete reads sequence parameters unexpected
        · have parameter : isParameter byte = true ∧ body.length + 1 ≤ 62 := by
            rw [sequence] at unexpected
            simp only [isUnexpected, List.length_cons, List.length_append, List.length_nil,
              Bool.or_eq_false_iff, decide_eq_false_iff_not, Bool.and_eq_false_iff,
              Bool.not_eq_false', Bool.or_eq_true, beq_iff_eq, last, or_false] at unexpected
            rw [isParameter, Bool.or_eq_true, beq_iff_eq]
            refine ⟨unexpected.2.imp_left fun digit => ?_, by omega⟩
            exact digit.resolve_left (by omega)
          refine writeControl_open reads unexpected last (.inr (.inr ⟨body ++ [byte], ?_, ?_, ?_⟩))
          · rw [sequence]
            rfl
          · rw [List.all_append, parameters, List.all_cons, parameter.1]
            rfl
          · rw [List.length_append]
            exact parameter.2

theorem writeByte_continues (reads : Reads options input tokens output) (byte : UInt8) :
    Continues options (input ++ [byte]) tokens (writeByte options output byte) := by
  rw [writeByte]
  split
  · rename_i plain
    rw [Bool.and_eq_true, List.isEmpty_iff, bne_iff_ne] at plain
    refine ⟨[.text byte], ?_, ?_, ?_, reads.opened⟩
    · intro token member
      rcases List.mem_append.mp member with earlier | last
      · exact reads.accepted token earlier
      · rw [List.mem_singleton.mp last]
        exact ⟨plain.2, rfl⟩
    · rw [reads.consumed, plain.1, sources_append]
      simp [sources, Token.source]
    · rw [passedBytes_append, ← reads.passed, ← List.append_assoc]
      rfl
  · rename_i control
    rw [Bool.and_eq_true, List.isEmpty_iff, bne_iff_ne, Classical.not_and_iff_not_or_not,
      not_not] at control
    exact writeControl_continues reads control

/-! ## Whole writes -/

theorem writeBytes_reads (rest : List UInt8) (reads : Reads options input tokens output) :
    match writeBytes options output rest with
    | (last, .ok ()) => ∃ all, Reads options (input ++ rest) all last
    | (last, .error error) => ∃ all read later, rest = read ++ later ∧
        Stops options (input ++ read) all last error := by
  induction rest generalizing input tokens output with
  | nil => exact ⟨tokens, (List.append_nil input).symm ▸ reads⟩
  | cons byte rest ih =>
      have continued := writeByte_continues reads byte
      rw [writeBytes]
      generalize writeByte options output byte = stepped at continued
      obtain ⟨next, result⟩ := stepped
      cases result with
      | error error => exact ⟨tokens, [byte], rest, rfl, continued⟩
      | ok value =>
          obtain ⟨more, further⟩ := continued
          have later := ih further
          dsimp only at later ⊢
          generalize writeBytes options next rest = finished at later
          obtain ⟨last, final⟩ := finished
          cases final with
          | ok value =>
              obtain ⟨all, done⟩ := later
              exact ⟨all, by rwa [List.append_assoc] at done⟩
          | error error =>
              obtain ⟨all, read, unread, split, stops⟩ := later
              exact ⟨all, byte :: read, unread, by rw [split, List.cons_append],
                by rwa [List.append_assoc] at stops⟩

/-! ## What is passed on -/

/-- The forms of a sequence that a terminal with these colors supports. -/
def Supported (depth : ColorDepth) : List Nat → Prop
  | [parameter] =>
      parameter ≠ 38 ∧ parameter ≠ 48 ∧ (depth = .none → isColor parameter = false)
  | [parameter, 5, index] =>
      (parameter = 38 ∨ parameter = 48) ∧ index ≤ 255 ∧ (depth = .ansi256 ∨ depth = .trueColor)
  | [parameter, 2, red, green, blue] =>
      (parameter = 38 ∨ parameter = 48) ∧ red ≤ 255 ∧ green ≤ 255 ∧ blue ≤ 255 ∧
        depth = .trueColor
  | _ => False

def SupportedBytes (depth : ColorDepth) (bytes : List UInt8) : Prop :=
  ∃ sequences : List (List Nat),
    bytes = sequences.flatMap sgrBytes ∧ ∀ sequence ∈ sequences, Supported depth sequence

theorem supportedBytes_nil (depth : ColorDepth) : SupportedBytes depth [] :=
  ⟨[], rfl, nofun⟩

theorem supportedBytes_one {depth : ColorDepth} {sequence : List Nat}
    (supported : Supported depth sequence) : SupportedBytes depth (sgrBytes sequence) := by
  refine ⟨[sequence], (List.append_nil _).symm, fun other member => ?_⟩
  rwa [List.mem_singleton.mp member]

theorem supportedBytes_append {depth : ColorDepth} {front back : List UInt8}
    (first : SupportedBytes depth front) (second : SupportedBytes depth back) :
    SupportedBytes depth (front ++ back) := by
  obtain ⟨left, rfl, leftSupported⟩ := first
  obtain ⟨right, rfl, rightSupported⟩ := second
  refine ⟨left ++ right, List.flatMap_append.symm, fun sequence member => ?_⟩
  exact (List.mem_append.mp member).elim (leftSupported sequence) (rightSupported sequence)

theorem nearest_lt (rgb : Rgb) {count : Nat} (some : 0 < count) : nearest rgb count < count := by
  have each : ∀ (indices : List Nat) (best : Nat), best < count →
      (∀ index ∈ indices, index < count) →
      indices.foldl (fun best index =>
        if colorDistance rgb (indexedRgb index) < colorDistance rgb (indexedRgb best) then index
        else best) best < count := by
    intro indices
    induction indices with
    | nil => exact fun best small _ => small
    | cons index rest ih =>
        intro best small inside
        rw [List.forall_mem_cons] at inside
        rw [List.foldl_cons]
        refine ih _ ?_ inside.2
        split
        · exact inside.1
        · exact small
  exact each _ 0 some fun index member => List.mem_range.mp member

theorem ansi_supported {depth : ColorDepth} (colored : depth ≠ .none) {index : Nat}
    (basic : index < 16) (background : Bool) :
    Supported depth ((Color.ansi index).parameters background) := by
  rw [Color.parameters, if_neg (Nat.not_le.mpr basic)]
  refine ⟨?_, ?_, fun none => absurd none colored⟩ <;> split <;> split <;> omega

theorem extendedColor_supported {depth : ColorDepth} {parameter : Nat}
    (extended : parameter = 38 ∨ parameter = 48) {rgb : Rgb} {index : Option Nat}
    (channels : index = none → rgb.1 ≤ 255 ∧ rgb.2.1 ≤ 255 ∧ rgb.2.2 ≤ 255)
    (small : ∀ value, index = some value → value ≤ 255) :
    SupportedBytes depth (extendedColor depth parameter rgb index) := by
  cases depth with
  | none => exact supportedBytes_nil _
  | ansi16 =>
      exact supportedBytes_one
        (@ansi_supported .ansi16 nofun _ (nearest_lt rgb (by decide)) (parameter == 48))
  | ansi256 =>
      cases index with
      | none =>
          exact supportedBytes_one
            ⟨extended, Nat.le_of_lt_succ (nearest_lt rgb (by decide)), .inl rfl⟩
      | some index => exact supportedBytes_one ⟨extended, small index rfl, .inl rfl⟩
  | trueColor =>
      cases index with
      | none =>
          obtain ⟨red, green, blue⟩ := channels rfl
          exact supportedBytes_one ⟨extended, red, green, blue, rfl⟩
      | some index => exact supportedBytes_one ⟨extended, small index rfl, .inr rfl⟩

theorem encodeParameters_supported (depth : ColorDepth) (parameters : List Nat) :
    SupportedBytes depth (encodeParameters depth parameters).1 := by
  fun_induction encodeParameters depth parameters with
  | case1 => exact supportedBytes_nil _
  | case2 parameter extended red green blue rest large => exact supportedBytes_nil _
  | case3 parameter extended red green blue rest small ih =>
      simp only [not_or, Nat.not_lt] at small
      exact supportedBytes_append (extendedColor_supported extended (fun _ => small) nofun) ih
  | case4 parameter extended index rest small ih =>
      refine supportedBytes_append (extendedColor_supported extended nofun ?_) ih
      rintro value ⟨⟩
      exact small
  | case5 parameter extended index rest large => exact supportedBytes_nil _
  | case6 => exact supportedBytes_nil _
  | case7 parameter rest plain ih =>
      rw [not_or] at plain
      refine supportedBytes_append ?_ ih
      split
      · exact supportedBytes_nil _
      · rename_i passed
        refine supportedBytes_one ⟨plain.1, plain.2, fun none => ?_⟩
        simpa [none] using passed

theorem sgr_supported (options : RenderOptions) (body : List UInt8) :
    SupportedBytes options.colorDepth (sgr options body).1 := by
  rw [sgr]
  split
  · exact supportedBytes_nil _
  · split
    · exact supportedBytes_nil _
    · exact encodeParameters_supported _ _

/-! ## Where the escapes are -/

theorem not_mem_decimal (number : Nat) : escape ∉ decimal number := by
  intro member
  obtain ⟨digit, written, inside⟩ := List.mem_flatMap.mp member
  have code := Json.utf8EncodeChar_ascii (by decide) inside
  have digits := Radix.isAsciiDigit_of_mem_toString written
  rw [← Char.ofNat_toNat digit, code] at digits
  exact absurd digits (by decide)

theorem not_mem_sgrBytes_tail (parameters : List Nat) : escape ∉ (sgrBytes parameters).tail := by
  intro member
  change escape ∈
    (bracket :: [semicolon].intercalate (parameters.map decimal)) ++ [letterM] at member
  rw [List.mem_append] at member
  rcases member with inside | last
  · rcases List.mem_cons.mp inside with first | body
    · exact absurd first (by decide)
    · rcases Text.mem_intercalate body with separator | ⟨piece, written, within⟩
      · exact absurd separator (by decide)
      · obtain ⟨number, -, rfl⟩ := List.mem_map.mp written
        exact not_mem_decimal number within
  · exact absurd (List.mem_singleton.mp last) (by decide)

/-- Every escape starts a supported sequence. -/
def EscapesComplete (depth : ColorDepth) (bytes : List UInt8) : Prop :=
  ∀ front rest, bytes = front ++ escape :: rest →
    ∃ parameters, Supported depth parameters ∧ sgrBytes parameters <+: escape :: rest

theorem escapesComplete_append {depth : ColorDepth} {front back : List UInt8}
    (first : EscapesComplete depth front) (second : EscapesComplete depth back) :
    EscapesComplete depth (front ++ back) := by
  intro before rest split
  rcases List.append_eq_append_iff.mp split with ⟨middle, rfl, behind⟩ | ⟨middle, whole, behind⟩
  · exact second middle rest behind
  · cases middle with
    | nil => exact second [] rest behind.symm
    | cons byte middle =>
        rw [List.cons_append, List.cons.injEq] at behind
        obtain ⟨rfl, rfl⟩ := behind
        obtain ⟨parameters, supported, starts⟩ := first before middle whole
        exact ⟨parameters, supported, starts.trans (List.prefix_append _ _)⟩

theorem escapesComplete_of_not_mem {depth : ColorDepth} {bytes : List UInt8}
    (without : escape ∉ bytes) : EscapesComplete depth bytes := by
  rintro front rest rfl
  exact absurd (List.mem_append_right _ List.mem_cons_self) without

theorem escapesComplete_sgrBytes {depth : ColorDepth} {parameters : List Nat}
    (supported : Supported depth parameters) : EscapesComplete depth (sgrBytes parameters) := by
  intro front rest split
  cases front with
  | nil => exact ⟨parameters, supported, split ▸ List.prefix_refl _⟩
  | cons byte front =>
      refine absurd ?_ (not_mem_sgrBytes_tail parameters)
      rw [split]
      exact List.mem_append_right front List.mem_cons_self

theorem escapesComplete_supportedBytes {depth : ColorDepth} {bytes : List UInt8}
    (supported : SupportedBytes depth bytes) : EscapesComplete depth bytes := by
  obtain ⟨sequences, rfl, each⟩ := supported
  induction sequences with
  | nil => exact escapesComplete_of_not_mem List.not_mem_nil
  | cons sequence rest ih =>
      rw [List.forall_mem_cons] at each
      rw [List.flatMap_cons]
      exact escapesComplete_append (escapesComplete_sgrBytes each.1) (ih each.2)

theorem escapesComplete_passedBytes (accepted : ∀ token ∈ tokens, token.Accepted options) :
    EscapesComplete options.colorDepth (passedBytes options tokens) := by
  induction tokens with
  | nil => exact escapesComplete_of_not_mem List.not_mem_nil
  | cons token rest ih =>
      rw [List.forall_mem_cons] at accepted
      refine escapesComplete_append ?_ (ih accepted.2)
      cases token with
      | text byte =>
          refine escapesComplete_of_not_mem fun member => ?_
          exact accepted.1.1 (List.mem_singleton.mp member).symm
      | control body => exact escapesComplete_supportedBytes (sgr_supported options body)

def textBytes (tokens : List Token) : List UInt8 :=
  tokens.flatMap fun token =>
    match token with
    | .text byte => [byte]
    | .control _ => []

/-- Without colors and attributes only the text is left. -/
theorem passedBytes_plain (plain : options.plain = true) (tokens : List Token) :
    passedBytes options tokens = textBytes tokens := by
  refine List.flatMap_congr fun token _ => ?_
  cases token with
  | text byte => rfl
  | control body => rw [Token.encoded, sgr, if_pos plain]

theorem not_mem_textBytes (accepted : ∀ token ∈ tokens, token.Accepted options) :
    escape ∉ textBytes tokens := by
  intro member
  obtain ⟨token, present, inside⟩ := List.mem_flatMap.mp member
  cases token with
  | text byte => exact (accepted _ present).1 (List.mem_singleton.mp inside).symm
  | control body => exact absurd inside List.not_mem_nil

theorem sgr_plain (plain : options.plain = true) (body : List UInt8) :
    sgr options body = ([], .ok ()) := by
  rw [sgr, if_pos plain]

theorem sgr_invalidNumber {body : List UInt8}
    (failed : (sgr options body).2 = .error .invalidNumber)
    : (sgr options body).1 = [] := by
  have encoding : ∀ (depth : ColorDepth) (parameters : List Nat),
      (encodeParameters depth parameters).2 ≠ .error .invalidNumber := by
    intro depth parameters
    fun_induction encodeParameters depth parameters with
    | case1 => exact nofun
    | case2 => exact nofun
    | case3 parameter extended red green blue rest small ih => exact ih
    | case4 parameter extended index rest small ih => exact ih
    | case5 => exact nofun
    | case6 => exact nofun
    | case7 parameter rest plain ih => exact ih
  rw [sgr] at failed ⊢
  split
  · rfl
  · rename_i styled
    rw [if_neg styled] at failed
    split
    · rfl
    · rename_i parameters parsed
      rw [parsed] at failed
      exact absurd failed (encoding _ _)

/-! ## All writes -/

/-- The same bytes are passed on however they are split. Every escape among them starts a complete
sequence of a supported form, and without styling there is none. What is read is text, which is
passed on as it is, and complete sequences; anything else makes a write or the flush fail. -/
theorem writeAll_carries_sgr (options : RenderOptions) (chunks : List (List UInt8)) :
    writeAll options .new chunks = write options .new chunks.flatten ∧
    EscapesComplete options.colorDepth (writeAll options .new chunks).1.passed ∧
    ∃ tokens, (∀ token ∈ tokens, token.Accepted options) ∧
      (options.plain = true → escape ∉ (writeAll options .new chunks).1.passed ∧
        passedBytes options tokens = textBytes tokens) ∧
      match writeAll options .new chunks with
      | (output, .ok ()) =>
          output.passed = passedBytes options tokens ∧
            chunks.flatten = sources tokens ++ output.sequence ∧ OpenControl output.sequence ∧
            (flush output = .ok () → chunks.flatten = sources tokens)
      | (output, .error error) => ∃ rest,
          (chunks.flatten = sources tokens ++ output.sequence ++ rest ∧
            Refused output.sequence ∧ output.passed = passedBytes options tokens) ∨
          ∃ body, chunks.flatten = sources tokens ++ (Token.control body).source ++ rest ∧
            (Token.control body).Formed ∧ (sgr options body).2 = .error error ∧
            (error = .invalidNumber → output.passed = passedBytes options tokens) := by
  have start : Reads options [] [] .new := ⟨nofun, rfl, rfl, .inl rfl⟩
  have reads := writeBytes_reads chunks.flatten start
  have whole := @writeAll_eq options chunks .new rfl
  refine ⟨whole, ?_⟩
  rw [whole, write_eq]
  generalize finished : writeBytes options .new chunks.flatten = final at reads
  obtain ⟨last, result⟩ := final
  cases result with
  | ok value =>
      obtain ⟨tokens, done⟩ := reads
      have complete : EscapesComplete options.colorDepth (last.passed ++ last.text) :=
        done.passed ▸ escapesComplete_passedBytes done.accepted
      refine ⟨complete, tokens, done.accepted, ?_,
        done.passed, done.consumed, done.opened, ?_⟩
      · intro plain
        have texts := passedBytes_plain plain tokens
        refine ⟨?_, texts⟩
        change escape ∉ last.passed ++ last.text
        rw [done.passed, texts]
        exact not_mem_textBytes done.accepted
      · intro flushed
        have closed : last.sequence = [] := by
          rw [flush] at flushed
          split at flushed
          · rename_i empty
            exact List.isEmpty_iff.mp empty
          · exact absurd flushed nofun
        have consumed := done.consumed
        rwa [closed, List.append_nil] at consumed
  | error error =>
      obtain ⟨tokens, read, rest, split, stops⟩ := reads
      have settled := Output.settled_of_text (writeBytes_error finished)
      change EscapesComplete _ last.settled.passed ∧ _
      rw [settled, split]
      rcases stops.failed with ⟨rfl, refused, consumed, passed⟩ |
        ⟨body, formed, failed, consumed, passed⟩
      · refine ⟨passed ▸ escapesComplete_passedBytes stops.accepted, tokens, stops.accepted, ?_,
          rest, .inl ⟨congrArg (· ++ rest) consumed, refused, passed⟩⟩
        intro plain
        have texts := passedBytes_plain plain tokens
        refine ⟨?_, texts⟩
        rw [passed, texts]
        exact not_mem_textBytes stops.accepted
      · refine ⟨?_, tokens, stops.accepted, ?_, rest, .inr ⟨body, congrArg (· ++ rest) consumed,
          formed, failed, ?_⟩⟩
        · rw [passed]
          exact escapesComplete_append (escapesComplete_passedBytes stops.accepted)
            (escapesComplete_supportedBytes (sgr_supported options body))
        · intro plain
          rw [sgr_plain plain] at failed
          exact absurd failed nofun
        · rintro rfl
          rw [passed, sgr_invalidNumber failed, List.append_nil]

/-- The parameters in front of an invalid color are passed on before the write fails. -/
theorem write_passes_front :
    ¬ ∀ (options : RenderOptions) (body : List UInt8) (error : OutputError),
      (Token.control body).Formed → (sgr options body).2 = .error error →
      (write options .new (Token.control body).source).1.passed = [] := by
  intro claimed
  have kept := claimed ⟨.trueColor, false⟩ (utf8 "1;38;5;999".toList) .invalidExtended
    ⟨by decide, by decide⟩ (by decide +kernel)
  revert kept
  decide +kernel

end Kvist.Blad
