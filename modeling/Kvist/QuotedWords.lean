import Kvist.Text

/-!
# Words with quotations

A line is split at white space outside quotations. Between two equal marks everything stands for
itself, but a backslash before such a mark or another backslash is left out.
-/

set_option autoImplicit false

namespace Kvist.QuotedWords

open Text

abbrev Word := List Char

def isMark (character : Char) : Bool := character = '\x27' || character = '"'

/-- The words before a place, the one that it stands in, and the mark of an open quotation. -/
structure Scan where
  words : List Word
  word : Option Word
  quote : Option Char

namespace Scan

def start : Scan := ⟨[], none, none⟩

def push (state : Scan) (text : List Char) : Scan :=
  { state with word := some (state.word.getD [] ++ text) }

def close (state : Scan) : Scan := { state with words := state.words ++ state.word.toList, word := none }

/-- The words up to a place, also one that is not complete. -/
def allWords (state : Scan) : List Word := state.words ++ state.word.toList

end Scan

def scan (state : Scan) : List Char → Scan
  | [] => state
  | character :: rest =>
      match state.quote with
      | none =>
          if isMark character then scan { state.push [] with quote := some character } rest
          else if isWhitespace character then scan state.close rest
          else scan (state.push [character]) rest
      | some active =>
          if character = active then scan { state with quote := none } rest
          else if character = '\\' then
            match rest with
            | [] => state.push ['\\']
            | next :: behind =>
                if next = active ∨ next = '\\' then scan (state.push [next]) behind
                else scan (state.push ['\\']) (next :: behind)
          else scan (state.push [character]) rest

variable {state : Scan} {character active : Char} {front back text : List Char}

@[simp] theorem scan_nil : scan state [] = state := rfl

theorem scan_cons : scan state (character :: back) =
    match state.quote with
    | none =>
        if isMark character then scan { state.push [] with quote := some character } back
        else if isWhitespace character then scan state.close back
        else scan (state.push [character]) back
    | some active =>
        if character = active then scan { state with quote := none } back
        else if character = '\\' then
          match back with
          | [] => state.push ['\\']
          | next :: behind =>
              if next = active ∨ next = '\\' then scan (state.push [next]) behind
              else scan (state.push ['\\']) (next :: behind)
        else scan (state.push [character]) back := by
  rw [scan.eq_def]

/-! ## Single characters -/

theorem scan_mark (outside : state.quote = none) (mark : isMark character = true) :
    scan state (character :: back) = scan { state.push [] with quote := some character } back := by
  rw [scan_cons]
  simp only [outside, mark, if_true]

theorem isMark_of_isWhitespace (blank : isWhitespace character = true) :
    isMark character = false := by
  rw [isMark, Bool.or_eq_false_iff, decide_eq_false_iff_not, decide_eq_false_iff_not]
  constructor
  · rintro rfl
    exact absurd blank (by decide)
  · rintro rfl
    exact absurd blank (by decide)

theorem scan_blank (outside : state.quote = none) (blank : isWhitespace character = true) :
    scan state (character :: back) = scan state.close back := by
  rw [scan_cons]
  simp only [outside, isMark_of_isWhitespace blank, blank, Bool.false_eq_true, if_true, if_false]

theorem scan_plain (outside : state.quote = none) (mark : isMark character = false)
    (blank : isWhitespace character = false) :
    scan state (character :: back) = scan (state.push [character]) back := by
  rw [scan_cons]
  simp only [outside, mark, blank, Bool.false_eq_true, if_false]

theorem scan_end (inside : state.quote = some active) :
    scan state (active :: back) = scan { state with quote := none } back := by
  rw [scan_cons]
  simp only [inside, if_true]

theorem scan_inside (inside : state.quote = some active) (other : character ≠ active)
    (backslash : character ≠ '\\') :
    scan state (character :: back) = scan (state.push [character]) back := by
  rw [scan_cons]
  simp only [inside, other, backslash, if_false]

theorem scan_escape (inside : state.quote = some active) (other : '\\' ≠ active)
    (escaped : character = active ∨ character = '\\') :
    scan state ('\\' :: character :: back) = scan (state.push [character]) back := by
  rw [scan_cons]
  simp only [inside, other, escaped, if_true, if_false]

theorem scan_backslash (inside : state.quote = some active) (other : '\\' ≠ active)
    (escaped : ¬(character = active ∨ character = '\\')) :
    scan state ('\\' :: character :: back) = scan (state.push ['\\']) (character :: back) := by
  rw [scan_cons]
  simp only [inside, other, escaped, if_true, if_false]

theorem scan_trailing (inside : state.quote = some active) (other : '\\' ≠ active) :
    scan state ['\\'] = state.push ['\\'] := by
  rw [scan_cons]
  simp only [inside, other, if_true, if_false]

/-! ## Texts -/

theorem last_of_cons (closed : (character :: text).getLast? ≠ some '\\') :
    text.getLast? ≠ some '\\' := by
  intro last
  refine closed ?_
  rw [List.getLast?_cons, last, Option.getD_some]

/-- A text is scanned part by part, as long as no backslash stands at the end of the first. -/
theorem scan_append (closed : front.getLast? ≠ some '\\') (back : List Char) :
    scan state (front ++ back) = scan (scan state front) back := by
  induction state, front using scan.induct with
  | case1 state => rw [List.nil_append, scan_nil]
  | case2 state character rest outside mark ih =>
      rw [List.cons_append, scan_mark outside mark, scan_mark outside mark]
      exact ih (last_of_cons closed)
  | case3 state character rest outside mark blank ih =>
      rw [List.cons_append, scan_blank outside blank, scan_blank outside blank]
      exact ih (last_of_cons closed)
  | case4 state character rest outside mark blank ih =>
      have plain := (Bool.not_eq_true _).mp mark
      have inert := (Bool.not_eq_true _).mp blank
      rw [List.cons_append, scan_plain outside plain inert, scan_plain outside plain inert]
      exact ih (last_of_cons closed)
  | case5 state rest active inside ih =>
      rw [List.cons_append, scan_end inside, scan_end inside]
      exact ih (last_of_cons closed)
  | case6 state active inside other => exact absurd rfl closed
  | case7 state active inside next behind escaped other ih =>
      rw [List.cons_append, List.cons_append, scan_escape inside other escaped,
        scan_escape inside other escaped]
      exact ih (last_of_cons (last_of_cons closed))
  | case8 state active inside next behind escaped other ih =>
      rw [List.cons_append, List.cons_append, scan_backslash inside other escaped,
        scan_backslash inside other escaped]
      exact ih (last_of_cons closed)
  | case9 state character rest active inside other backslash ih =>
      rw [List.cons_append, scan_inside inside other backslash, scan_inside inside other backslash]
      exact ih (last_of_cons closed)

/-! ## Tokens -/

/-- Outside quotations the token adds the text to the word that it stands in. -/
def Spells (token text : Word) : Prop :=
  ∀ state back, state.quote = none → scan state (token ++ back) = scan (state.push text) back

theorem push_push (state : Scan) (first second : List Char) :
    (state.push first).push second = state.push (first ++ second) := by
  rw [Scan.push, Scan.push, Scan.push, Option.getD_some, List.append_assoc]

/-- A text without white space and marks stands for itself. -/
theorem spells_self (nonempty : text ≠ [])
    (inert : ∀ character ∈ text, isMark character = false ∧ isWhitespace character = false) :
    Spells text text := by
  induction text with
  | nil => exact absurd rfl nonempty
  | cons character rest ih =>
      intro state back outside
      obtain ⟨mark, blank⟩ := inert character List.mem_cons_self
      rw [List.cons_append, scan_plain outside mark blank]
      cases rest with
      | nil => rfl
      | cons next rest =>
          rw [ih (List.cons_ne_nil _ _) (fun other member => inert other (by simp [member]))
            (state.push [character]) back outside, push_push]
          rfl

/-- A backslash in front of each mark and each backslash. -/
def escape (text : List Char) : List Char :=
  text.flatMap fun character => if character = '"' ∨ character = '\\' then ['\\', character] else [character]

def quoted (text : List Char) : List Char := '"' :: escape text ++ ['"']

theorem scan_escaped {begun : Word} (inside : state.quote = some '"')
    (started : state.word = some begun) :
    scan state (escape text ++ back) = scan (state.push text) back := by
  induction text generalizing state begun with
  | nil =>
      have same : state.push [] = state := by
        rw [Scan.push, started, Option.getD_some, List.append_nil, ← started]
      rw [same]
      rfl
  | cons character rest ih =>
      have step : scan state (escape (character :: rest) ++ back) =
          scan (state.push [character]) (escape rest ++ back) := by
        rw [escape, List.flatMap_cons, List.append_assoc]
        by_cases special : character = '"' ∨ character = '\\'
        · rw [if_pos special]
          exact scan_escape inside (by decide) special
        · rw [if_neg special]
          exact scan_inside inside (fun same => special (.inl same)) fun same => special (.inr same)
      have later : (state.push [character]).quote = some '"' := inside
      rw [step, ih later rfl, push_push]
      rfl

theorem spells_quoted (text : List Char) : Spells (quoted text) text := by
  intro state back outside
  have opened : ({ state.push [] with quote := some '"' } : Scan).quote = some '"' := rfl
  rw [quoted, List.cons_append, List.cons_append, List.append_assoc, scan_mark outside (by decide),
    scan_escaped opened rfl, List.singleton_append, scan_end rfl]
  refine congrArg (scan · back) ?_
  rw [Scan.push, Scan.push, Scan.push, Option.getD_some, List.append_nil, ← outside]

/-! ## Words around a place -/

def Scan.behind (earlier : List Word) (state : Scan) : Scan :=
  { state with words := earlier ++ state.words }

theorem close_behind (earlier : List Word) (state : Scan) :
    (state.behind earlier).close = state.close.behind earlier := by
  rw [Scan.behind, Scan.behind, Scan.close, Scan.close, List.append_assoc]

/-- What words stand before a text does not matter for its words. -/
theorem scan_behind (earlier : List Word) (state : Scan) (text : List Char) :
    scan (state.behind earlier) text = (scan state text).behind earlier := by
  induction state, text using scan.induct with
  | case1 state => rw [scan_nil, scan_nil]
  | case2 state character rest outside mark ih =>
      have later : (state.behind earlier).quote = none := outside
      rw [scan_mark outside mark, scan_mark later mark]
      exact ih
  | case3 state character rest outside mark blank ih =>
      have later : (state.behind earlier).quote = none := outside
      rw [scan_blank outside blank, scan_blank later blank, close_behind]
      exact ih
  | case4 state character rest outside mark blank ih =>
      have plain := (Bool.not_eq_true _).mp mark
      have inert := (Bool.not_eq_true _).mp blank
      have later : (state.behind earlier).quote = none := outside
      rw [scan_plain outside plain inert, scan_plain later plain inert]
      exact ih
  | case5 state rest active inside ih =>
      have later : (state.behind earlier).quote = some active := inside
      rw [scan_end inside, scan_end later]
      exact ih
  | case6 state active inside other =>
      have later : (state.behind earlier).quote = some active := inside
      rw [scan_trailing inside other, scan_trailing later other]
      rfl
  | case7 state active inside next behind escaped other ih =>
      have later : (state.behind earlier).quote = some active := inside
      rw [scan_escape inside other escaped, scan_escape later other escaped]
      exact ih
  | case8 state active inside next behind escaped other ih =>
      have later : (state.behind earlier).quote = some active := inside
      rw [scan_backslash inside other escaped, scan_backslash later other escaped]
      exact ih
  | case9 state character rest active inside other backslash ih =>
      have later : (state.behind earlier).quote = some active := inside
      rw [scan_inside inside other backslash, scan_inside later other backslash]
      exact ih

theorem allWords_behind (earlier : List Word) (state : Scan) :
    (state.behind earlier).allWords = earlier ++ state.allWords :=
  List.append_assoc _ _ _

theorem word_of_blank (marked : ∀ mark, state.quote = some mark → isMark mark = true)
    (last : text.getLast?.any isWhitespace = true)
    (outside : (scan state text).quote = none) : (scan state text).word = none := by
  induction state, text using scan.induct with
  | case1 state => cases last
  | case2 state character rest begun mark ih =>
      rw [scan_mark begun mark] at outside ⊢
      cases rest with
      | nil =>
          rw [scan_nil] at outside
          cases outside
      | cons next rest =>
          refine ih (fun other same => ?_) last outside
          cases same
          exact mark
  | case3 state character rest begun mark blank ih =>
      rw [scan_blank begun blank] at outside ⊢
      cases rest with
      | nil => rfl
      | cons next rest => exact ih marked last outside
  | case4 state character rest begun mark blank ih =>
      rw [scan_plain begun ((Bool.not_eq_true _).mp mark) ((Bool.not_eq_true _).mp blank)]
        at outside ⊢
      cases rest with
      | nil => exact absurd last blank
      | cons next rest => exact ih marked last outside
  | case5 state rest active inside ih =>
      rw [scan_end inside] at outside ⊢
      cases rest with
      | nil =>
          have blank : isWhitespace active = true := last
          have inert := isMark_of_isWhitespace blank
          rw [marked active inside] at inert
          cases inert
      | cons next rest => exact ih nofun last outside
  | case6 state active inside other => cases last
  | case7 state active inside next behind escaped other ih =>
      rw [scan_escape inside other escaped] at outside ⊢
      cases behind with
      | nil => 
          rw [scan_nil] at outside
          cases inside.symm.trans outside
      | cons next rest => exact ih marked last outside
  | case8 state active inside next behind escaped other ih =>
      rw [scan_backslash inside other escaped] at outside ⊢
      exact ih marked last outside
  | case9 state character rest active inside other backslash ih =>
      rw [scan_inside inside other backslash] at outside ⊢
      cases rest with
      | nil => 
          rw [scan_nil] at outside
          cases inside.symm.trans outside
      | cons next rest => exact ih marked last outside

theorem eq_behind (outside : state.quote = none) (complete : state.word = none) :
    state = Scan.start.behind state.allWords := by
  obtain ⟨words, word, quote⟩ := state
  obtain rfl : word = none := complete
  obtain rfl : quote = none := outside
  exact congrArg (Scan.mk · none none)
    ((List.append_nil words).symm.trans (List.append_nil _).symm)

/-- White space outside quotations ends the word before it. -/
theorem scan_gap (outside : state.quote = none) (back : List Char) :
    scan state (' ' :: back) = (scan .start back).behind state.allWords := by
  rw [scan_blank outside (by decide), ← scan_behind]
  refine congrArg (scan · back) ?_
  rw [Scan.close, Scan.behind, outside]
  refine congrArg (Scan.mk · none none) (List.append_nil _).symm

/-- A token between white space is a word more. -/
theorem scan_token {token argument : Word} (spells : Spells token argument)
    (outside : state.quote = none) (complete : state.word = none) (back : List Char) :
    scan state (token ++ ' ' :: back) =
      (scan .start back).behind (state.allWords ++ [argument]) := by
  have pushed : (state.push argument).quote = none := outside
  have words : (state.push argument).allWords = state.allWords ++ [argument] := by
    rw [Scan.allWords, Scan.allWords, Scan.push, complete, Option.toList_none, List.append_nil]
    rfl
  rw [spells state _ outside, scan_gap pushed, words]

end Kvist.QuotedWords
