import Mathlib.Tactic.ByContra
import Mathlib.Tactic.SplitIfs
import Kvist.Json.Bytes

/-!
# Where the text of an object ends

A text is scanned with the depth of its brackets and the knowledge of whether a string is open. The
text of an object does not end with the text of another one: a scan that begins inside never closes
the brackets that are open, and one that begins inside a string ends inside a string.
-/

set_option autoImplicit false

namespace Kvist.Json

inductive Mode where
  | outside
  | text
  | escaped
  deriving DecidableEq, Repr

/-- One character in a mode and at a depth; `none` where no text goes on so. -/
def scanStep (state : Mode × Nat) (character : Char) : Option (Mode × Nat) :=
  match state.1 with
  | .outside =>
      if character = '"' then some (.text, state.2)
      else if character = '\x7b' ∨ character = '[' then some (.outside, state.2 + 1)
      else if character = '\x7d' ∨ character = ']' then
        if state.2 = 0 then none else some (.outside, state.2 - 1)
      else if character = '\\' then none
      else some state
  | .text =>
      if character = '"' then some (.outside, state.2)
      else if character = '\\' then some (.escaped, state.2)
      else some state
  | .escaped =>
      if character ∈ ['"', '\\', 'b', 'f', 'n', 'r', 't', 'u'] then some (.text, state.2) else none

def scan (state : Mode × Nat) (text : List Char) : Option (Mode × Nat) :=
  text.foldlM scanStep state

@[simp] theorem scan_nil (state : Mode × Nat) : scan state [] = some state := rfl

theorem scan_cons (state : Mode × Nat) (character : Char) (rest : List Char) :
    scan state (character :: rest) = (scanStep state character).bind fun next => scan next rest :=
  rfl

theorem scan_append (state : Mode × Nat) (front back : List Char) :
    scan state (front ++ back) = (scan state front).bind fun next => scan next back :=
  List.foldlM_append

theorem scanStep_deeper {mode : Mode} {depth : Nat} {character : Char} {next : Mode × Nat}
    (scanned : scanStep (mode, depth) character = some next) (more : Nat) :
    scanStep (mode, depth + more) character = some (next.1, next.2 + more) := by
  cases mode with
  | outside =>
    simp only [scanStep] at scanned ⊢
    split_ifs at scanned ⊢ with quotation opening closing
    all_goals first | omega | cases scanned
    all_goals first | rfl | simp only [Option.some.injEq, Prod.mk.injEq, true_and]; omega
  | text =>
    simp only [scanStep] at scanned ⊢
    split_ifs at scanned ⊢ with quotation backslash
    all_goals cases scanned
    all_goals rfl
  | escaped =>
    simp only [scanStep] at scanned ⊢
    split_ifs at scanned ⊢ with letter
    cases scanned
    rfl

theorem scan_deeper {mode : Mode} {depth : Nat} {text : List Char} {final : Mode × Nat}
    (scanned : scan (mode, depth) text = some final) (more : Nat) :
    scan (mode, depth + more) text = some (final.1, final.2 + more) := by
  induction text generalizing mode depth with
  | nil =>
    cases scanned
    rfl
  | cons character rest rests =>
    rw [scan_cons, Option.bind_eq_some_iff] at scanned
    obtain ⟨⟨nextMode, nextDepth⟩, step, later⟩ := scanned
    rw [scan_cons, scanStep_deeper step more, Option.bind_some]
    exact rests later

/-! ## Scanning printed text -/

/-- Neither a quotation mark, a backslash nor a bracket. -/
def plain (character : Char) : Bool :=
  !(['"', '\\', '\x7b', '\x7d', '[', ']'].contains character)

theorem scanStep_plain {character : Char} (isPlain : plain character = true) (depth : Nat) :
    scanStep (.outside, depth) character = some (.outside, depth) ∧
      scanStep (.text, depth) character = some (.text, depth) := by
  simp only [plain, List.contains_cons, List.contains_nil, Bool.or_false, Bool.not_eq_true',
    Bool.or_eq_false_iff, beq_eq_false_iff_ne] at isPlain
  simp [scanStep, isPlain]

theorem scan_plain {text : List Char} (isPlain : text.all plain = true) (depth : Nat) :
    scan (.outside, depth) text = some (.outside, depth) ∧
      scan (.text, depth) text = some (.text, depth) := by
  induction text with
  | nil => exact ⟨rfl, rfl⟩
  | cons character rest rests =>
    rw [List.all_cons, Bool.and_eq_true] at isPlain
    have step := scanStep_plain isPlain.1 depth
    rw [scan_cons, scan_cons, step.1, step.2]
    exact rests isPlain.2

private theorem hexDigit_plain : ∀ digit < 16, plain (hexDigit digit) = true := by decide

/-- A character stands for itself, or a backslash and a letter stand for it. -/
theorem escape_cases (character : Char) :
    (character ≠ '"' ∧ character ≠ '\\' ∧ escape character = [character]) ∨
      ∃ letter rest, escape character = '\\' :: letter :: rest ∧
        letter ∈ ['"', '\\', 'b', 'f', 'n', 'r', 't', 'u'] ∧
          rest.all plain = true := by
  have short (letter : Char)
      (listed : letter ∈ ['"', '\\', 'b', 'f', 'n', 'r', 't', 'u']) :
      ∃ found rest, ['\\', letter] = '\\' :: found :: rest ∧
        found ∈ ['"', '\\', 'b', 'f', 'n', 'r', 't', 'u'] ∧
          rest.all plain = true :=
    ⟨letter, [], rfl, listed, rfl⟩
  unfold escape
  split_ifs with quotation backslash backspace feed newline carriage tabulator control
  · exact Or.inr (short _ (by decide))
  · exact Or.inr (short _ (by decide))
  · exact Or.inr (short _ (by decide))
  · exact Or.inr (short _ (by decide))
  · exact Or.inr (short _ (by decide))
  · exact Or.inr (short _ (by decide))
  · exact Or.inr (short _ (by decide))
  · right
    refine ⟨'u', _, rfl, by decide, ?_⟩
    have high := hexDigit_plain (character.toNat / 16) (by omega)
    have low := hexDigit_plain (character.toNat % 16) (by omega)
    rw [List.all_cons, List.all_cons, List.all_cons, high, List.all_cons, low]
    rfl
  · exact Or.inl ⟨quotation, backslash, rfl⟩

theorem scan_escape (depth : Nat) (character : Char) :
    scan (.text, depth) (escape character) = some (.text, depth) := by
  rcases escape_cases character with
    ⟨quotation, backslash, same⟩ | ⟨letter, rest, same, listed, isPlain⟩
  · simp [same, scan_cons, scanStep, quotation, backslash]
  · have opened : scanStep (.text, depth) '\\' = some (.escaped, depth) := rfl
    have closed : scanStep (.escaped, depth) letter = some (.text, depth) := if_pos listed
    rw [same, scan_cons, opened, Option.bind_some, scan_cons, closed]
    exact (scan_plain isPlain depth).2

theorem scan_characters (depth : Nat) (text : List Char) :
    scan (.text, depth) (text.flatMap escape) = some (.text, depth) := by
  induction text with
  | nil => rfl
  | cons character rest rests =>
    rw [List.flatMap_cons, scan_append, scan_escape]
    exact rests

theorem scan_quote (depth : Nat) (text : String) :
    scan (.outside, depth) (quote text) = some (.outside, depth) := by
  have opened : scanStep (.outside, depth) '"' = some (.text, depth) := rfl
  rw [quote, scan_cons, opened, Option.bind_some, scan_append, scan_characters]
  rfl

theorem numeral_plain {literal : List Char} (isNumeral : literal.all numeral = true) :
    literal.all plain = true := by
  apply List.all_eq_true.mpr
  intro character member
  have same := List.all_eq_true.mp isNumeral character member
  by_contra bracket
  simp only [plain, List.contains_cons, List.contains_nil, Bool.or_false, Bool.not_eq_true',
    Bool.not_eq_false, Bool.or_eq_true, beq_iff_eq] at bracket
  rcases bracket with rfl | rfl | rfl | rfl | rfl | rfl
  all_goals cases same

theorem opened_step (depth : Nat) {bracket : Char} (opens : bracket = '\x7b' ∨ bracket = '[') :
    scanStep (.outside, depth) bracket = some (.outside, depth + 1) := by
  rcases opens with rfl | rfl <;> rfl

theorem closed_step (depth : Nat) {bracket : Char} (closes : bracket = '\x7d' ∨ bracket = ']') :
    scanStep (.outside, depth + 1) bracket = some (.outside, depth) := by
  rcases closes with rfl | rfl <;> rfl

/-- What leaves the depth as it is does so between brackets. -/
theorem scan_bracketed {depth : Nat} {inner : List Char} {opening closing : Char}
    (opens : opening = '\x7b' ∨ opening = '[') (closes : closing = '\x7d' ∨ closing = ']')
    (scanned : scan (.outside, depth + 1) inner = some (.outside, depth + 1)) :
    scan (.outside, depth) (opening :: (inner ++ [closing])) = some (.outside, depth) := by
  rw [scan_cons, opened_step depth opens, Option.bind_some, scan_append, scanned,
    Option.bind_some, scan_cons, closed_step depth closes]
  rfl

mutual

/-- The text of a value opens and closes its own strings and brackets. -/
theorem scan_compact (value : Value) (wellFormed : value.wellFormed = true) (depth : Nat) :
    scan (.outside, depth) (compact value) = some (.outside, depth) := by
  cases value with
  | null => exact (scan_plain (by decide) depth).1
  | boolean value =>
    cases value with
    | true => exact (scan_plain (by decide) depth).1
    | false => exact (scan_plain (by decide) depth).1
  | number literal =>
    rw [Value.wellFormed, Bool.and_eq_true] at wellFormed
    exact (scan_plain (numeral_plain wellFormed.2) depth).1
  | string text => exact scan_quote depth text
  | array items =>
    exact scan_bracketed (Or.inr rfl) (Or.inr rfl) (scan_compactItems items wellFormed (depth + 1))
  | object members =>
    exact scan_bracketed (Or.inl rfl) (Or.inl rfl)
      (scan_compactMembers members wellFormed (depth + 1))

theorem scan_compactItems (items : List Value) (wellFormed : Value.wellFormedItems items = true)
    (depth : Nat) : scan (.outside, depth) (compactItems items) = some (.outside, depth) := by
  match items with
  | [] => rfl
  | [item] =>
    rw [Value.wellFormedItems, Bool.and_eq_true] at wellFormed
    exact scan_compact item wellFormed.1 depth
  | item :: next :: rest =>
    rw [Value.wellFormedItems, Bool.and_eq_true] at wellFormed
    rw [compactItems.eq_3 _ _ (by simp), scan_append, scan_compact item wellFormed.1 depth]
    exact scan_compactItems (next :: rest) wellFormed.2 depth

theorem scan_compactMembers (members : List (String × Value))
    (wellFormed : Value.wellFormedMembers members = true) (depth : Nat) :
    scan (.outside, depth) (compactMembers members) = some (.outside, depth) := by
  match members with
  | [] => rfl
  | [(name, value)] =>
    rw [Value.wellFormedMembers, Bool.and_eq_true] at wellFormed
    rw [compactMembers, scan_append, scan_quote]
    exact scan_compact value wellFormed.1 depth
  | (name, value) :: next :: rest =>
    rw [Value.wellFormedMembers, Bool.and_eq_true] at wellFormed
    rw [compactMembers.eq_3 _ _ _ (by simp), scan_append, scan_quote, Option.bind_some, scan_cons]
    change scan (.outside, depth) _ = _
    rw [scan_append, scan_compact value wellFormed.1 depth]
    exact scan_compactMembers (next :: rest) wellFormed.2 depth

end

/-! ## Scanning from inside a string -/

/-- A scan that begins in the mode and goes through ends in it. -/
def Keeps (mode : Mode) (text : List Char) : Prop :=
  ∀ depth final, scan (mode, depth) text = some final → final.1 = mode

theorem Keeps.append {mode : Mode} {front back : List Char} (first : Keeps mode front)
    (second : Keeps mode back) : Keeps mode (front ++ back) := by
  intro depth final scanned
  rw [scan_append, Option.bind_eq_some_iff] at scanned
  obtain ⟨⟨between, deep⟩, before, after⟩ := scanned
  obtain rfl : between = mode := first depth _ before
  exact second deep final after

theorem Keeps.plain {text : List Char} (isPlain : text.all plain = true) : Keeps .text text := by
  intro depth final scanned
  rw [(scan_plain isPlain depth).2] at scanned
  cases scanned
  rfl

theorem Keeps.bracket {bracket : Char} (listed : bracket ∈ ['\x7b', '\x7d', '[', ']', ',', ':']) :
    Keeps .text [bracket] := by
  intro depth final scanned
  have others : bracket ≠ '"' ∧ bracket ≠ '\\' := by
    simp only [List.mem_cons, List.not_mem_nil, or_false] at listed
    rcases listed with rfl | rfl | rfl | rfl | rfl | rfl <;> decide
  obtain ⟨quotation, backslash⟩ := others
  simp only [scan_cons, scanStep, if_neg quotation, if_neg backslash] at scanned
  cases scanned
  rfl

/-- Outside a string no backslash is scanned, so that characters stand for themselves. -/
theorem keeps_characters (text : List Char) : Keeps .outside (text.flatMap escape) := by
  induction text with
  | nil =>
    intro depth final scanned
    cases scanned
    rfl
  | cons character rest rests =>
    rw [List.flatMap_cons]
    apply Keeps.append _ rests
    intro depth final scanned
    rcases escape_cases character with ⟨quotation, backslash, same⟩ | ⟨letter, more, same, _, _⟩
    · rw [same, scan_cons] at scanned
      simp only [scanStep, if_neg quotation, if_neg backslash] at scanned
      split_ifs at scanned
      all_goals cases scanned
      all_goals rfl
    · rw [same] at scanned
      cases scanned

theorem keeps_quote (text : String) : Keeps .text (quote text) := by
  intro depth final scanned
  have opened : scanStep (.text, depth) '"' = some (.outside, depth) := rfl
  rw [quote, scan_cons, opened, Option.bind_some, scan_append, Option.bind_eq_some_iff] at scanned
  obtain ⟨⟨between, deep⟩, before, after⟩ := scanned
  obtain rfl : between = .outside := keeps_characters text.toList depth _ before
  cases after
  rfl

theorem Keeps.bracketed {inner : List Char} {opening closing : Char}
    (opens : opening = '\x7b' ∨ opening = '[') (closes : closing = '\x7d' ∨ closing = ']')
    (kept : Keeps .text inner) : Keeps .text (opening :: (inner ++ [closing])) := by
  have first : Keeps .text [opening] := by
    apply Keeps.bracket
    rcases opens with rfl | rfl <;> decide
  have last : Keeps .text [closing] := by
    apply Keeps.bracket
    rcases closes with rfl | rfl <;> decide
  exact first.append (kept.append last)

mutual

/-- Begun inside a string, the text of a value ends inside a string. -/
theorem keeps_compact (value : Value) (wellFormed : value.wellFormed = true) :
    Keeps .text (compact value) := by
  cases value with
  | null => exact Keeps.plain (by decide)
  | boolean value =>
    cases value with
    | true => exact Keeps.plain (by decide)
    | false => exact Keeps.plain (by decide)
  | number literal =>
    rw [Value.wellFormed, Bool.and_eq_true] at wellFormed
    exact Keeps.plain (numeral_plain wellFormed.2)
  | string text => exact keeps_quote text
  | array items =>
    exact Keeps.bracketed (Or.inr rfl) (Or.inr rfl) (keeps_compactItems items wellFormed)
  | object members =>
    exact Keeps.bracketed (Or.inl rfl) (Or.inl rfl) (keeps_compactMembers members wellFormed)

theorem keeps_compactItems (items : List Value)
    (wellFormed : Value.wellFormedItems items = true) : Keeps .text (compactItems items) := by
  match items with
  | [] => exact Keeps.plain rfl
  | [item] =>
    rw [Value.wellFormedItems, Bool.and_eq_true] at wellFormed
    exact keeps_compact item wellFormed.1
  | item :: next :: rest =>
    rw [Value.wellFormedItems, Bool.and_eq_true] at wellFormed
    have comma : Keeps .text [','] := Keeps.bracket (by decide)
    have others := comma.append (keeps_compactItems (next :: rest) wellFormed.2)
    rw [compactItems.eq_3 _ _ (by simp)]
    exact (keeps_compact item wellFormed.1).append others

theorem keeps_compactMembers (members : List (String × Value))
    (wellFormed : Value.wellFormedMembers members = true) : Keeps .text (compactMembers members) := by
  have colon : Keeps .text [':'] := Keeps.bracket (by decide)
  match members with
  | [] => exact Keeps.plain rfl
  | [(name, value)] =>
    rw [Value.wellFormedMembers, Bool.and_eq_true] at wellFormed
    exact (keeps_quote name).append (colon.append (keeps_compact value wellFormed.1))
  | (name, value) :: next :: rest =>
    rw [Value.wellFormedMembers, Bool.and_eq_true] at wellFormed
    have comma : Keeps .text [','] := Keeps.bracket (by decide)
    have others := comma.append (keeps_compactMembers (next :: rest) wellFormed.2)
    rw [compactMembers.eq_3 _ _ _ (by simp)]
    exact (keeps_quote name).append
      (colon.append ((keeps_compact value wellFormed.1).append others))

end

/-- Where the text of an object ends with the text of an object, they are the same. -/
theorem object_suffix {left right : List (String × Value)} {front : List Char}
    (leftFormed : Value.wellFormedMembers left = true)
    (rightFormed : Value.wellFormedMembers right = true)
    (same : compact (.object left) = front ++ compact (.object right)) : front = [] := by
  cases front with
  | nil => rfl
  | cons first front =>
    exfalso
    -- The rest of `front` is scanned within the outer brackets, where the depth is positive.
    have inside : compactMembers left = front ++ '\x7b' :: compactMembers right := by
      rw [compact, compact, List.cons_append, List.cons.injEq, ← List.cons_append,
        ← List.append_assoc] at same
      exact List.append_cancel_right same.2
    have whole := scan_compactMembers left leftFormed 0
    rw [inside, scan_append, Option.bind_eq_some_iff] at whole
    obtain ⟨⟨mode, depth⟩, before, after⟩ := whole
    have closed := scan_compact (.object left) leftFormed 0
    have opened : scanStep (.outside, 0) '\x7b' = some (.outside, 0 + 1) := rfl
    rw [same, List.cons_append] at closed
    have isFirst : first = '\x7b' := by
      rw [compact, List.cons_append, List.cons.injEq] at same
      exact same.1.symm
    rw [isFirst, scan_cons, opened, Option.bind_some, scan_append,
      scan_deeper before 1, Option.bind_some] at closed
    cases mode with
    | outside =>
      rw [scan_compact (.object right) rightFormed (depth + 1)] at closed
      cases closed
    | text =>
      have kept := keeps_compact (.object right) rightFormed (depth + 1) _ closed
      cases kept
    | escaped => cases after

/-- No object's text goes on behind the text of an object. -/
theorem object_prefix {left right : List (String × Value)} {back : List Char}
    (leftFormed : Value.wellFormedMembers left = true)
    (rightFormed : Value.wellFormedMembers right = true)
    (same : compact (.object left) = compact (.object right) ++ back) : back = [] := by
  by_contra more
  obtain ⟨front, last, rfl⟩ := (List.eq_nil_or_concat back).resolve_left more
  -- The shorter text ends inside the outer brackets of the longer one.
  have inside : compactMembers left = (compactMembers right ++ ['\x7d']) ++ front := by
    rw [compact, compact, List.cons_append, List.cons.injEq, List.concat_eq_append,
      ← List.append_assoc] at same
    exact (List.append_inj' same.2 rfl).1
  have whole := scan_compactMembers left leftFormed 0
  rw [inside, scan_append, Option.bind_eq_some_iff] at whole
  obtain ⟨⟨mode, depth⟩, before, _⟩ := whole
  have opened : scanStep (.outside, 0) '\x7b' = some (.outside, 0 + 1) := rfl
  have closed := scan_compact (.object right) rightFormed 0
  rw [compact, scan_cons, opened, Option.bind_some, scan_deeper before 1] at closed
  cases closed

end Kvist.Json
