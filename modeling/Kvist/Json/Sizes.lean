import Mathlib
import Kvist.Json.Bytes
import Kvist.Utf8

/-!
# The sizes of JSON texts

How many bytes the compact text of a value takes, from the sizes of its parts.
-/

set_option autoImplicit false

namespace Kvist.Json

theorem length_encode (value : Value) : (encode value).length = serializedBytes value :=
  length_utf8 _

def quoteBytes (text : String) : Nat := utf8Bytes (quote text)

@[simp] theorem serializedBytes_string (text : String) :
    serializedBytes (.string text) = quoteBytes text := by
  rw [serializedBytes, compact, quoteBytes]

/-- What one member of an object takes, with the colon and the comma or the last brace. -/
def memberBytes (member : String × Value) : Nat := quoteBytes member.1 + serializedBytes member.2 + 2

theorem utf8Bytes_ascii {character : Char} (ascii : character.utf8Size = 1) (rest : List Char) :
    utf8Bytes (character :: rest) = utf8Bytes rest + 1 := by
  rw [utf8Bytes, ascii, Nat.add_comm]

private theorem compactMembers_bytes {members : List (String × Value)} (nonempty : members ≠ []) :
    utf8Bytes (compactMembers members) + 1 = (members.map memberBytes).sum := by
  induction members with
  | nil => exact absurd rfl nonempty
  | cons member rest ih =>
      obtain ⟨name, value⟩ := member
      cases rest with
      | nil =>
          rw [compactMembers, utf8Bytes_append, utf8Bytes_ascii rfl, List.map_singleton,
            List.sum_singleton, memberBytes, quoteBytes, serializedBytes, Nat.add_assoc,
            Nat.add_assoc, Nat.add_assoc]
      | cons next rest =>
          have others := ih (List.cons_ne_nil _ _)
          rw [List.map_cons, List.sum_cons, ← others, compactMembers.eq_3 _ _ _ (by simp),
            utf8Bytes_append, utf8Bytes_ascii rfl, utf8Bytes_append, utf8Bytes_ascii rfl,
            memberBytes, quoteBytes, serializedBytes]
          dsimp only
          omega

theorem serializedBytes_object {members : List (String × Value)} (nonempty : members ≠ []) :
    serializedBytes (.object members) = 1 + (members.map memberBytes).sum := by
  rw [serializedBytes, compact, utf8Bytes_ascii rfl, utf8Bytes_append, utf8Bytes_ascii rfl,
    utf8Bytes, ← compactMembers_bytes nonempty]
  omega

private theorem compactItems_bytes {items : List Value} (nonempty : items ≠ []) :
    utf8Bytes (compactItems items) + 1 = (items.map fun item => serializedBytes item + 1).sum := by
  induction items with
  | nil => exact absurd rfl nonempty
  | cons item rest ih =>
      cases rest with
      | nil =>
          rw [compactItems, List.map_singleton, List.sum_singleton, serializedBytes]
      | cons next rest =>
          have others := ih (List.cons_ne_nil _ _)
          rw [List.map_cons, List.sum_cons, ← others, compactItems.eq_3 _ _ (by simp),
            utf8Bytes_append, utf8Bytes_ascii rfl, serializedBytes]
          omega

/-- The brackets and what is between them. -/
theorem serializedBytes_array_le (items : List Value) :
    serializedBytes (.array items) ≤ 2 + (items.map fun item => serializedBytes item + 1).sum := by
  rw [serializedBytes, compact, utf8Bytes_ascii rfl, utf8Bytes_append, utf8Bytes_ascii rfl,
    utf8Bytes]
  by_cases empty : items = []
  · rw [empty, compactItems, utf8Bytes]
    omega
  · rw [← compactItems_bytes empty]
    omega

private theorem utf8Size_le_escape (character : Char) :
    character.utf8Size ≤ utf8Bytes (escape character) := by
  unfold escape
  split_ifs with _ _ _ _ _ _ _ control
  all_goals try (subst character; decide)
  · have small : character.utf8Size = 1 :=
      Char.utf8Size_eq_one_iff.mpr (UInt32.le_iff_toNat_le.mpr (by
        change character.toNat ≤ 127
        omega))
    rw [small, utf8Bytes_ascii rfl]
    exact Nat.le_add_left 1 _
  · rw [utf8Bytes, utf8Bytes, Nat.add_zero]

theorem serializedBytes_member_le {members : List (String × Value)} {name : String} {value : Value}
    (inside : (name, value) ∈ members) :
    serializedBytes value ≤ serializedBytes (.object members) := by
  rw [serializedBytes_object (List.ne_nil_of_mem inside)]
  have part := List.single_le_sum (fun size _ => Nat.zero_le size) _
    (@List.mem_map_of_mem _ _ _ _ memberBytes inside)
  rw [memberBytes] at part
  dsimp only at part
  omega

theorem utf8Bytes_le_quoteBytes (text : String) : utf8Bytes text.toList ≤ quoteBytes text := by
  have each : ∀ characters : List Char,
      utf8Bytes characters ≤ utf8Bytes (characters.flatMap escape) := by
    intro characters
    induction characters with
    | nil => exact Nat.le_refl 0
    | cons character rest ih =>
        rw [utf8Bytes, List.flatMap_cons, utf8Bytes_append]
        exact Nat.add_le_add (utf8Size_le_escape character) ih
  rw [quoteBytes, quote, utf8Bytes_ascii rfl, utf8Bytes_append]
  exact Nat.le_succ_of_le (Nat.le_add_right_of_le (each text.toList))

/-! ## Bounds -/

theorem utf8_toList (text : String) : utf8 text.toList = text.toByteArray.data.toList := by
  rw [← String.utf8Encode_toList, List.utf8Encode, utf8]
  simp

theorem utf8Bytes_toList (text : String) : utf8Bytes text.toList = text.utf8ByteSize := by
  rw [← length_utf8, utf8_toList]
  rfl

private theorem escape_le_six (character : Char) :
    utf8Bytes (escape character) ≤ 6 * character.utf8Size := by
  have positive := character.utf8Size_pos
  by_cases control : character.toNat < 0x20
  · have every : ∀ code < 0x20, utf8Bytes (escape (Char.ofNat code)) ≤ 6 := by decide
    have found := every character.toNat control
    rw [Char.ofNat_toNat] at found
    omega
  · have printed (special : Char) (below : special.toNat < 0x20) : character ≠ special := by
      rintro rfl
      exact control below
    simp only [escape, printed '\x08' (by decide), printed '\x0c' (by decide),
      printed '\n' (by decide), printed '\x0d' (by decide), printed '\t' (by decide), control,
      if_false]
    split_ifs
    · have two : utf8Bytes ['\\', '"'] = 2 := by decide
      omega
    · have two : utf8Bytes ['\\', '\\'] = 2 := by decide
      omega
    · rw [utf8Bytes, utf8Bytes]
      omega

theorem quoteBytes_le (text : String) : quoteBytes text ≤ 6 * text.utf8ByteSize + 2 := by
  have each : ∀ characters : List Char,
      utf8Bytes (characters.flatMap escape) ≤ 6 * utf8Bytes characters := by
    intro characters
    induction characters with
    | nil => exact Nat.le_refl 0
    | cons character rest ih =>
        rw [utf8Bytes, List.flatMap_cons, utf8Bytes_append, Nat.mul_add]
        exact Nat.add_le_add (escape_le_six character) ih
  have whole := each text.toList
  rw [utf8Bytes_toList] at whole
  rw [quoteBytes, quote, utf8Bytes_ascii rfl, utf8Bytes_append, utf8Bytes_ascii rfl, utf8Bytes]
  omega

mutual

def sizeBound : Value → Nat
  | .null | .boolean _ => 5
  | .number literal => literal.utf8ByteSize
  | .string text => 6 * text.utf8ByteSize + 2
  | .array items => 2 + itemsBound items
  | .object members => 2 + membersBound members

def itemsBound : List Value → Nat
  | [] => 0
  | item :: rest => sizeBound item + 1 + itemsBound rest

def membersBound : List (String × Value) → Nat
  | [] => 0
  | (name, value) :: rest => 6 * name.utf8ByteSize + 2 + sizeBound value + 2 + membersBound rest

end

mutual

theorem serializedBytes_le (value : Value) : serializedBytes value ≤ sizeBound value := by
  match value with
  | .null => exact (by decide : serializedBytes .null ≤ 5)
  | .boolean true => exact (by decide : serializedBytes (.boolean true) ≤ 5)
  | .boolean false => exact (by decide : serializedBytes (.boolean false) ≤ 5)
  | .number literal => exact (utf8Bytes_toList literal).le
  | .string text =>
      rw [serializedBytes_string]
      exact quoteBytes_le text
  | .array items =>
      refine (serializedBytes_array_le items).trans ?_
      rw [sizeBound]
      exact Nat.add_le_add_left (itemsBound_le items) 2
  | .object members =>
      rw [sizeBound]
      cases members with
      | nil => exact (by decide : serializedBytes (.object []) ≤ 2)
      | cons member rest =>
          rw [serializedBytes_object (List.cons_ne_nil _ _)]
          have others := membersBound_le (member :: rest)
          omega

theorem itemsBound_le (items : List Value) :
    (items.map fun item => serializedBytes item + 1).sum ≤ itemsBound items := by
  match items with
  | [] => exact Nat.le_refl 0
  | item :: rest =>
      rw [List.map_cons, List.sum_cons, itemsBound]
      exact Nat.add_le_add (Nat.add_le_add_right (serializedBytes_le item) 1) (itemsBound_le rest)

theorem membersBound_le (members : List (String × Value)) :
    (members.map memberBytes).sum ≤ membersBound members := by
  match members with
  | [] => exact Nat.le_refl 0
  | (name, value) :: rest =>
      have own := serializedBytes_le value
      have named := quoteBytes_le name
      have others := membersBound_le rest
      rw [List.map_cons, List.sum_cons, membersBound, memberBytes]
      dsimp only
      omega

end

/-! ## Plain texts -/

/-- A character of one byte that stands for itself in quotation marks. -/
def plainCharacter (character : Char) : Bool :=
  0x20 ≤ character.toNat && character.toNat < 0x80 && character != '"' && character != '\\'

theorem plain_utf8Size {character : Char} (plain : plainCharacter character = true) :
    character.utf8Size = 1 := by
  simp only [plainCharacter, Bool.and_eq_true, decide_eq_true_eq] at plain
  rw [Char.utf8Size_eq_one_iff]
  exact UInt32.le_iff_toNat_le.mpr (Nat.le_of_lt_succ plain.1.1.2)

theorem escape_plain {character : Char} (plain : plainCharacter character = true) :
    escape character = [character] := by
  simp only [plainCharacter, Bool.and_eq_true, decide_eq_true_eq, bne_iff_ne] at plain
  obtain ⟨⟨⟨printed, ascii⟩, quotation⟩, backslash⟩ := plain
  have other (special : Char) (below : special.toNat < 0x20) : character ≠ special := by
    rintro rfl
    omega
  rw [escape, if_neg quotation, if_neg backslash, if_neg (other _ (by decide)),
    if_neg (other _ (by decide)), if_neg (other _ (by decide)), if_neg (other _ (by decide)),
    if_neg (other _ (by decide)), if_neg (by omega)]

theorem utf8Bytes_plain {text : List Char} (plain : text.all plainCharacter = true) :
    utf8Bytes text = text.length := by
  induction text with
  | nil => rfl
  | cons character rest ih =>
      rw [List.all_cons, Bool.and_eq_true] at plain
      rw [utf8Bytes_ascii (plain_utf8Size plain.1), ih plain.2, List.length_cons]

theorem flatMap_escape_plain {text : List Char} (plain : text.all plainCharacter = true) :
    text.flatMap escape = text := by
  induction text with
  | nil => rfl
  | cons character rest ih =>
      rw [List.all_cons, Bool.and_eq_true] at plain
      rw [List.flatMap_cons, escape_plain plain.1, ih plain.2, List.singleton_append]

theorem quoteBytes_eq (text : String) :
    quoteBytes text = utf8Bytes (text.toList.flatMap escape) + 2 := by
  rw [quoteBytes, quote, utf8Bytes_ascii rfl, utf8Bytes_append, utf8Bytes_ascii rfl, utf8Bytes]

theorem quoteBytes_plain {text : String} (plain : text.toList.all plainCharacter = true) :
    quoteBytes text = text.toList.length + 2 := by
  rw [quoteBytes_eq, flatMap_escape_plain plain, utf8Bytes_plain plain]

/-- A test on the bytes of a text, which are at hand without its characters. -/
def plainBytes (text : String) : Bool :=
  text.toByteArray.data.toList.all fun byte =>
    byte.toNat < 128 && plainCharacter (Char.ofNat byte.toNat)

theorem plain_of_bytes {text : String} (plain : plainBytes text = true) :
    text.toList.all plainCharacter = true := by
  rw [plainBytes, ← utf8_toList, List.all_eq_true] at plain
  rw [List.all_eq_true]
  intro character member
  obtain ⟨first, rest, encoded, -⟩ := Utf8.next_utf8EncodeChar character []
  have byte := plain first (List.mem_flatMap.mpr
    ⟨character, member, encoded ▸ List.mem_cons_self⟩)
  rw [Bool.and_eq_true, decide_eq_true_eq] at byte
  have code := utf8EncodeChar_ascii byte.1 (encoded ▸ List.mem_cons_self)
  rw [← code, Char.ofNat_toNat] at byte
  exact byte.2

theorem quoteBytes_of_bytes {text : String} (plain : plainBytes text = true) :
    quoteBytes text = text.utf8ByteSize + 2 := by
  have each := plain_of_bytes plain
  rw [quoteBytes_plain each, ← utf8Bytes_plain each, ← length_utf8, utf8_toList]
  rfl

theorem quoteBytes_names {names : List String} (plain : names.all plainBytes = true) :
    names.map quoteBytes = names.map fun name => name.utf8ByteSize + 2 :=
  List.map_congr_left fun name member => quoteBytes_of_bytes (List.all_eq_true.mp plain name member)

end Kvist.Json
