import Mathlib

/-!
# Places in a text

A place in a text is the number of bytes in front of it. Texts are cut and searched at places
between two characters.
-/

set_option autoImplicit false

namespace Kvist.ByteText

/-- `str::len`. -/
def byteLength (text : List Char) : Nat := (text.map Char.utf8Size).sum

@[simp] theorem byteLength_nil : byteLength [] = 0 := rfl

@[simp] theorem byteLength_cons (character : Char) (rest : List Char) :
    byteLength (character :: rest) = character.utf8Size + byteLength rest := by
  rw [byteLength, List.map_cons, List.sum_cons, byteLength]

@[simp] theorem byteLength_append (front back : List Char) :
    byteLength (front ++ back) = byteLength front + byteLength back := by
  rw [byteLength, List.map_append, List.sum_append, byteLength, byteLength]

theorem byteLength_pos {text : List Char} (some : text ≠ []) : 0 < byteLength text := by
  cases text with
  | nil => exact absurd rfl some
  | cons character rest =>
      rw [byteLength_cons]
      exact Nat.lt_of_lt_of_le character.utf8Size_pos (Nat.le_add_right _ _)

theorem eq_nil_of_byteLength {text : List Char} (none : byteLength text = 0) : text = [] := by
  by_contra some
  exact absurd none (byteLength_pos some).ne'

/-! ## Cutting -/

/-- `text.get(start..)`. -/
def getFrom : Nat → List Char → Option (List Char)
  | 0, text => some text
  | _ + 1, [] => none
  | start + 1, character :: rest =>
      if character.utf8Size ≤ start + 1 then getFrom (start + 1 - character.utf8Size) rest else none

/-- `text.get(..stop)`. -/
def getTo : Nat → List Char → Option (List Char)
  | 0, _ => some []
  | _ + 1, [] => none
  | stop + 1, character :: rest =>
      if character.utf8Size ≤ stop + 1 then
        (getTo (stop + 1 - character.utf8Size) rest).map (character :: ·)
      else none

/-- `text.get(start..stop)`. -/
def get (start stop : Nat) (text : List Char) : Option (List Char) :=
  if start ≤ stop then (getFrom start text).bind (getTo (stop - start)) else none

theorem getFrom_append (front back : List Char) :
    getFrom (byteLength front) (front ++ back) = some back := by
  induction front with
  | nil => rw [byteLength_nil, List.nil_append, getFrom]
  | cons character rest ih =>
      obtain ⟨size, same⟩ := Nat.exists_eq_succ_of_ne_zero character.utf8Size_pos.ne'
      have whole : byteLength (character :: rest) = (size + byteLength rest) + 1 := by
        rw [byteLength_cons, same]
        omega
      rw [whole, List.cons_append, getFrom, same, if_pos (by omega)]
      have left : size + byteLength rest + 1 - size.succ = byteLength rest := by omega
      rw [left, ih]

theorem getTo_append (front back : List Char) :
    getTo (byteLength front) (front ++ back) = some front := by
  induction front with
  | nil => rw [byteLength_nil, getTo]
  | cons character rest ih =>
      obtain ⟨size, same⟩ := Nat.exists_eq_succ_of_ne_zero character.utf8Size_pos.ne'
      have whole : byteLength (character :: rest) = (size + byteLength rest) + 1 := by
        rw [byteLength_cons, same]
        omega
      rw [whole, List.cons_append, getTo, same, if_pos (by omega)]
      have left : size + byteLength rest + 1 - size.succ = byteLength rest := by omega
      rw [left, ih, Option.map_some]

theorem getTo_eq_some_iff {stop : Nat} {text front : List Char} :
    getTo stop text = some front ↔ ∃ back, text = front ++ back ∧ byteLength front = stop := by
  constructor
  · intro cut
    induction stop, text using getTo.induct generalizing front with
    | case1 text =>
        rw [getTo] at cut
        cases cut
        exact ⟨text, rfl, rfl⟩
    | case2 stop => cases cut
    | case3 stop character rest fits ih =>
        rw [getTo, if_pos fits, Option.map_eq_some_iff] at cut
        obtain ⟨shorter, cut, rfl⟩ := cut
        obtain ⟨back, rfl, length⟩ := ih cut
        refine ⟨back, rfl, ?_⟩
        rw [byteLength_cons, length]
        omega
    | case4 stop character rest large =>
        rw [getTo, if_neg large] at cut
        cases cut
  · rintro ⟨back, rfl, rfl⟩
    exact getTo_append front back

theorem get_append (front middle back : List Char) :
    get (byteLength front) (byteLength front + byteLength middle) (front ++ (middle ++ back)) =
      some middle := by
  rw [get, if_pos (Nat.le_add_right _ _), getFrom_append, Option.bind_some,
    Nat.add_sub_cancel_left, getTo_append]

/-! ## Searching -/

/-- `text.find(needle)`. -/
def find (needle : List Char) : List Char → Option Nat
  | [] => if needle = [] then some 0 else none
  | character :: rest =>
      if needle.isPrefixOf (character :: rest) then some 0
      else (find needle rest).map (character.utf8Size + ·)

theorem find_behind {first : Char} {blank : List Char} (absent : first ∉ blank)
    (needle rest : List Char) :
    find (first :: needle) (blank ++ (first :: needle ++ rest)) = some (byteLength blank) := by
  induction blank with
  | nil =>
      rw [List.nil_append, List.cons_append, find, if_pos]
      · rfl
      · rw [List.isPrefixOf_iff_prefix, ← List.cons_append]
        exact List.prefix_append _ _
  | cons character others ih =>
      rw [List.mem_cons, not_or] at absent
      rw [List.cons_append, find, if_neg, ih absent.2, Option.map_some, byteLength_cons]
      rw [List.isPrefixOf_iff_prefix, List.cons_prefix_cons]
      exact fun both => absent.1 both.1

/-! ## Places between characters -/

def Boundary (text : List Char) (place : Nat) : Prop :=
  ∃ front back, text = front ++ back ∧ byteLength front = place

variable {text front back : List Char} {place start stop : Nat}

theorem boundary_end (text : List Char) : Boundary text (byteLength text) :=
  ⟨text, [], (List.append_nil text).symm, rfl⟩

theorem Boundary.le (boundary : Boundary text place) : place ≤ byteLength text := by
  obtain ⟨front, back, rfl, rfl⟩ := boundary
  rw [byteLength_append]
  exact Nat.le_add_right _ _

theorem Boundary.append (boundary : Boundary text place) (more : List Char) :
    Boundary (text ++ more) place := by
  obtain ⟨front, back, rfl, rfl⟩ := boundary
  exact ⟨front, back ++ more, List.append_assoc _ _ _, rfl⟩

/-- Of two ways to cut a text one cuts inside the front of the other. -/
theorem append_inside {front back other behind : List Char}
    (same : front ++ back = other ++ behind) (order : byteLength front ≤ byteLength other) :
    ∃ middle, other = front ++ middle ∧ back = middle ++ behind := by
  rcases List.append_eq_append_iff.mp same with ⟨middle, first, second⟩ | ⟨middle, first, second⟩
  · exact ⟨middle, first, second⟩
  · have none : middle = [] := by
      refine eq_nil_of_byteLength ?_
      rw [first, byteLength_append] at order
      omega
    subst none
    rw [List.append_nil] at first
    exact ⟨[], by rw [List.append_nil, first], by rw [second, List.nil_append, List.nil_append]⟩

/-- A place inside a part of a text is one of the part. -/
theorem Boundary.within {front middle back : List Char}
    (boundary : Boundary (front ++ (middle ++ back)) place) (above : byteLength front ≤ place)
    (below : place ≤ byteLength front + byteLength middle) :
    Boundary middle (place - byteLength front) := by
  obtain ⟨before, behind, same, rfl⟩ := boundary
  obtain ⟨inner, rfl, rest⟩ := append_inside same above
  rw [byteLength_append] at below
  obtain ⟨outer, rfl, -⟩ := append_inside rest.symm (by omega)
  refine ⟨inner, outer, rfl, ?_⟩
  rw [byteLength_append, Nat.add_sub_cancel_left]

/-- A text is cut in three at two places. -/
theorem Boundary.split (first : Boundary text start) (second : Boundary text stop)
    (order : start ≤ stop) :
    ∃ front middle back, text = front ++ (middle ++ back) ∧ byteLength front = start ∧
      byteLength middle = stop - start := by
  obtain ⟨front, rest, rfl, rfl⟩ := first
  obtain ⟨longer, back, same, rfl⟩ := second
  obtain ⟨middle, rfl, rfl⟩ := append_inside same order
  refine ⟨front, middle, back, rfl, rfl, ?_⟩
  rw [byteLength_append, Nat.add_sub_cancel_left]

end Kvist.ByteText
