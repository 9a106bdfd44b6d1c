import Mathlib.Data.List.Nodup
import Kvist.Yaml.Quoting
import Kvist.Yaml.Value

/-!
# Block documents

Presentation trees of block mappings and block sequences over one-line scalars, in the layout
with two spaces for each level, and the rules by which a YAML reader loads them. The rules
say nothing of flow collections, anchors, tags, comments or other layouts.
-/

set_option autoImplicit false

namespace Kvist.Yaml

/-- A presentation tree. A word is a plain scalar of one token. -/
inductive Node where
  | word (text : List Char)
  | emptySequence
  | quoted (raw : List Char)
  | mapping (entries : List (List Char × Node))
  | sequence (items : List Node)

/-- A line without its line feed. -/
structure Line where
  indent : Nat
  content : List Char
  deriving DecidableEq, Repr

def Line.characters (line : Line) : List Char :=
  List.replicate line.indent ' ' ++ line.content ++ ['\n']

/-- The text of a node that stands behind its key or dash. -/
def Node.inline : Node → Option (List Char)
  | .word text => some text
  | .emptySequence => some ['[', ']']
  | .quoted raw => some ('"' :: (raw ++ ['"']))
  | .mapping _ | .sequence _ => none

/-- Put the dash of a sequence entry before the first line of its block. -/
def dashFirst : List Line → List Line
  | [] => []
  | first :: rest => ⟨first.indent - 2, '-' :: ' ' :: first.content⟩ :: rest

mutual

def Node.blockLines (indent : Nat) : Node → List Line
  | .mapping entries => entryLines indent entries
  | .sequence items => itemLines indent items
  | .word _ | .emptySequence | .quoted _ => []

def entryLines (indent : Nat) : List (List Char × Node) → List Line
  | [] => []
  | (key, node) :: rest =>
      (match node.inline with
        | some text => [⟨indent, key ++ ':' :: ' ' :: text⟩]
        | none => ⟨indent, key ++ [':']⟩ :: node.blockLines (indent + 2)) ++
      entryLines indent rest

def itemLines (indent : Nat) : List Node → List Line
  | [] => []
  | node :: rest =>
      (match node.inline with
        | some text => [⟨indent, '-' :: ' ' :: text⟩]
        | none => dashFirst (node.blockLines (indent + 2))) ++
      itemLines indent rest

end

/-- The document of a block collection. -/
def Node.render (node : Node) : List Char := (node.blockLines 0).flatMap Line.characters

/-! ## Words and keys -/

def isLowerLetter (character : Char) : Bool := 'a' ≤ character && character ≤ 'z'

def isDigit (character : Char) : Bool := '0' ≤ character && character ≤ '9'

/-- A decimal number without leading zeros that fits a machine integer. -/
def isNumber (text : List Char) : Bool :=
  text == ['0'] ||
    (text != [] && text.all isDigit && text.head? != some '0' && text.length ≤ 18)

def isName (text : List Char) : Bool :=
  text.head?.any isLowerLetter &&
    text.all fun character => isLowerLetter character || character == '-' || character == '_'

def isWord (text : List Char) : Bool := isNumber text || isName text

/-- A name that resolves to a text and is short enough for a key. -/
def isKey (text : List Char) : Bool :=
  isName text && text.length ≤ 1024 && !(["null".toList, "true".toList, "false".toList].contains text)

def numberValue (digits : List Char) : Nat :=
  digits.foldl (fun value digit => value * 10 + (digit.toNat - 48)) 0

/-- The core schema on words. -/
def resolveWord (text : List Char) : Resolved :=
  if isNumber text then .integer (numberValue text)
  else if text = "null".toList then .null
  else if text = "true".toList then .boolean true
  else if text = "false".toList then .boolean false
  else .string

def wordValue (text : List Char) : Value := .plain (String.ofList text) (resolveWord text)

mutual

def Node.wellFormed : Node → Bool
  | .word text => isWord text
  | .emptySequence => true
  | .quoted raw => (unquote raw).isSome
  | .mapping entries =>
      !entries.isEmpty && decide (entries.map (·.1)).Nodup && entriesWellFormed entries
  | .sequence items => !items.isEmpty && itemsWellFormed items

def entriesWellFormed : List (List Char × Node) → Bool
  | [] => true
  | (key, node) :: rest => isKey key && node.wellFormed && entriesWellFormed rest

def itemsWellFormed : List Node → Bool
  | [] => true
  | node :: rest => node.wellFormed && itemsWellFormed rest

end

mutual

/-- The document a tree presents. -/
def Node.value : Node → Value
  | .word text => wordValue text
  | .emptySequence => .sequence []
  | .quoted raw => .quoted (String.ofList ((unquote raw).getD []))
  | .mapping entries => .mapping (entryValues entries)
  | .sequence items => .sequence (itemValues items)

def entryValues : List (List Char × Node) → List (Value × Value)
  | [] => []
  | (key, node) :: rest => (wordValue key, node.value) :: entryValues rest

def itemValues : List Node → List Value
  | [] => []
  | node :: rest => node.value :: itemValues rest

end

/-- A mapping with these names as keys, and a name as a scalar. -/
def Node.record (entries : List (String × Node)) : Node :=
  .mapping (entries.map fun entry => (entry.1.toList, entry.2))

@[simp] theorem Node.inline_record (entries : List (String × Node)) :
    (Node.record entries).inline = none := rfl

@[simp] theorem Node.blockLines_record (indent : Nat) (entries : List (String × Node)) :
    (Node.record entries).blockLines indent =
      entryLines indent (entries.map fun entry => (entry.1.toList, entry.2)) := by
  rw [Node.record, Node.blockLines]

def Node.name (text : String) : Node := .word text.toList

def Node.isCollection (node : Node) : Bool := node.inline.isNone

/-- What is assumed of a YAML reader: it loads block documents, and it refuses a document
with a character outside the printable set. -/
structure BlockRules (fromStr : String → Except String Value) : Prop where
  block : ∀ node : Node, node.isCollection = true → node.wellFormed = true →
    node.render.all isPrintable = true →
    fromStr (String.ofList node.render) = .ok node.value
  reader : ∀ text : String, text.toList.all isPrintable = false →
    ∃ reason, fromStr text = .error reason

/-! ## Reading the value of a tree -/

theorem Node.value_name (text : String) :
    (Node.name text).value = .plain text (resolveWord text.toList) := by
  simp [Node.name, Node.value, wordValue]

theorem Node.value_record (entries : List (String × Node)) :
    (Node.record entries).value = .mapping (entries.map fun entry =>
      (.plain entry.1 (resolveWord entry.1.toList), entry.2.value)) := by
  rw [Node.record, Node.value]
  congr 1
  induction entries with
  | nil => rfl
  | cons entry rest ih => simp [entryValues, wordValue, ih]

theorem Node.value_sequence (items : List Node) :
    (Node.sequence items).value = .sequence (items.map Node.value) := by
  rw [Node.value]
  congr 1
  induction items with
  | nil => rfl
  | cons item rest ih => simp [itemValues, ih]

private theorem fieldNames (entries : List (String × Node)) :
    (entries.map fun entry => (entry.1, entry.2.value)).map (·.1) = entries.map (·.1) := by
  simp

theorem fields_record {known : List String} {entries : List (String × Node)}
    (subset : ∀ entry ∈ entries, entry.1 ∈ known) (distinct : (entries.map (·.1)).Nodup) :
    typedView.fields known (Node.record entries).value =
      some (entries.map fun entry => (entry.1, entry.2.value)) := by
  have gathered : (entries.map fun entry : String × Node =>
        ((Value.plain entry.1 (resolveWord entry.1.toList), entry.2.value) : Value × Value)).mapM
      (fun entry => do
        let name ← typedView.text entry.1
        if name ∈ known then some (name, entry.2) else none) =
      some (entries.map fun entry => (entry.1, entry.2.value)) := by
    clear distinct
    induction entries with
    | nil => rfl
    | cons entry rest ih =>
        rw [List.map_cons, List.mapM_cons, ih fun other member => subset other (by simp [member])]
        simp [typedView, subset entry (by simp)]
  rw [Node.value_record, View.fields, gathered, Option.bind_eq_bind, Option.bind_some, fieldNames,
    if_pos distinct]

/-- A reader that passes over unknown fields finds the known ones. -/
theorem lenientFields_record {known : List String} {entries : List (String × Node)}
    (distinct : (entries.map (·.1)).Nodup) :
    typedView.lenientFields known (Node.record entries).value =
      some ((entries.map fun entry => (entry.1, entry.2.value)).filter (·.1 ∈ known)) := by
  have gathered : (entries.map fun entry : String × Node =>
        ((Value.plain entry.1 (resolveWord entry.1.toList), entry.2.value) : Value × Value)).mapM
      (fun entry => do
        let name ← typedView.text entry.1
        some (name, entry.2)) =
      some (entries.map fun entry => (entry.1, entry.2.value)) := by
    clear distinct
    induction entries with
    | nil => rfl
    | cons entry rest ih =>
        rw [List.map_cons, List.mapM_cons, ih]
        simp [typedView]
  have kept : (((entries.map fun entry => (entry.1, entry.2.value)).filter (·.1 ∈ known)).map
      (·.1)).Nodup :=
    List.Nodup.sublist (List.Sublist.map _ List.filter_sublist) (by rwa [fieldNames])
  rw [Node.value_record, View.lenientFields, gathered, Option.bind_eq_bind, Option.bind_some,
    if_pos kept]

theorem list_sequence {α : Type} {decode : Value → Option α} {nodes : List Node} {values : List α}
    (decoded : (nodes.map Node.value).mapM decode = some values) :
    typedView.list decode (Node.sequence nodes).value = some values := by
  rw [Node.value_sequence, View.list]
  simpa [typedView] using decoded

theorem list_emptySequence {α : Type} {decode : Value → Option α} :
    typedView.list decode Node.emptySequence.value = some [] := rfl

/-! ## Well-formed trees -/

theorem Node.wellFormed_record {entries : List (String × Node)} (notEmpty : entries ≠ [])
    (distinct : (entries.map (·.1)).Nodup)
    (keys : (entries.map (·.1)).all (fun name => isKey name.toList) = true)
    (valid : ∀ entry ∈ entries, entry.2.wellFormed = true) :
    (Node.record entries).wellFormed = true := by
  have names : ((entries.map fun entry => (entry.1.toList, entry.2)).map (·.1)).Nodup := by
    have same : (entries.map fun entry => (entry.1.toList, entry.2)).map (·.1) =
        (entries.map (·.1)).map String.toList := by simp
    rw [same]
    exact List.Nodup.map (fun _ _ equal => String.toList_inj.mp equal) distinct
  have each : ∀ entries : List (String × Node),
      (∀ entry ∈ entries, isKey entry.1.toList = true ∧ entry.2.wellFormed = true) →
      entriesWellFormed (entries.map fun entry => (entry.1.toList, entry.2)) = true := by
    intro entries valid
    induction entries with
    | nil => rfl
    | cons entry rest ih =>
        have here := valid entry (by simp)
        simp [entriesWellFormed, here.1, here.2, ih fun other member => valid other (by simp [member])]
  simp only [Node.record, Node.wellFormed, Bool.and_eq_true, decide_eq_true_eq]
  refine ⟨⟨by simpa using notEmpty, names⟩, each entries fun entry member => ?_⟩
  exact ⟨List.all_eq_true.mp keys _ (List.mem_map.mpr ⟨entry, member, rfl⟩), valid entry member⟩

theorem Node.wellFormed_sequence {nodes : List Node} (notEmpty : nodes ≠ [])
    (valid : ∀ node ∈ nodes, node.wellFormed = true) :
    (Node.sequence nodes).wellFormed = true := by
  have each : ∀ nodes : List Node, (∀ node ∈ nodes, node.wellFormed = true) →
      itemsWellFormed nodes = true := by
    intro nodes valid
    induction nodes with
    | nil => rfl
    | cons node rest ih =>
        simp [itemsWellFormed, valid node (by simp),
          ih fun other member => valid other (by simp [member])]
  simp only [Node.wellFormed, Bool.and_eq_true]
  exact ⟨by simpa using notEmpty, each nodes valid⟩

/-! ## Printable trees -/

mutual

/-- The quoted texts of a tree. -/
def Node.raws : Node → List (List Char)
  | .word _ | .emptySequence => []
  | .quoted raw => [raw]
  | .mapping entries => entryRaws entries
  | .sequence items => itemRaws items

def entryRaws : List (List Char × Node) → List (List Char)
  | [] => []
  | (_, node) :: rest => node.raws ++ entryRaws rest

def itemRaws : List Node → List (List Char)
  | [] => []
  | node :: rest => node.raws ++ itemRaws rest

end

theorem Node.raws_record (entries : List (String × Node)) :
    (Node.record entries).raws = entries.flatMap fun entry => entry.2.raws := by
  rw [Node.record, Node.raws]
  induction entries with
  | nil => rfl
  | cons entry rest ih => simp [entryRaws, ih]

theorem Node.raws_sequence (nodes : List Node) :
    (Node.sequence nodes).raws = nodes.flatMap Node.raws := by
  rw [Node.raws]
  induction nodes with
  | nil => rfl
  | cons node rest ih => simp [itemRaws, ih]

def AllPrintable (texts : List (List Char)) : Prop := ∀ text ∈ texts, text.all isPrintable = true

private theorem allPrintable_append {left right : List (List Char)} :
    AllPrintable (left ++ right) ↔ AllPrintable left ∧ AllPrintable right := by
  simp only [AllPrintable, List.mem_append, or_imp, forall_and]

private theorem printable_of_range {character : Char} (low : 0x20 ≤ character.toNat)
    (high : character.toNat ≤ 0x7E) : isPrintable character = true := by
  simp [isPrintable, low, high]

private theorem digit_printable {character : Char} (digit : isDigit character = true) :
    isPrintable character = true := by
  simp only [isDigit, Bool.and_eq_true, decide_eq_true_eq] at digit
  have low : 48 ≤ character.toNat := Char.le_def.mp digit.1
  have high : character.toNat ≤ 57 := Char.le_def.mp digit.2
  exact printable_of_range (by omega) (by omega)

private theorem letter_printable {character : Char} (letter : isLowerLetter character = true) :
    isPrintable character = true := by
  simp only [isLowerLetter, Bool.and_eq_true, decide_eq_true_eq] at letter
  have low : 97 ≤ character.toNat := Char.le_def.mp letter.1
  have high : character.toNat ≤ 122 := Char.le_def.mp letter.2
  exact printable_of_range (by omega) (by omega)

private theorem name_printable {text : List Char} (name : isName text = true) :
    text.all isPrintable = true := by
  simp only [isName, Bool.and_eq_true, List.all_eq_true, Bool.or_eq_true, beq_iff_eq] at name ⊢
  intro character member
  rcases name.2 character member with (letter | rfl) | rfl
  · exact letter_printable letter
  · decide
  · decide

private theorem word_printable {text : List Char} (word : isWord text = true) :
    text.all isPrintable = true := by
  rcases (Bool.or_eq_true _ _).mp word with number | name
  · simp only [isNumber, Bool.or_eq_true, beq_iff_eq, Bool.and_eq_true, List.all_eq_true]
      at number ⊢
    rcases number with rfl | ⟨⟨⟨_, digits⟩, _⟩, _⟩
    · have zero : isPrintable '0' = true := by decide
      simpa using zero
    · exact fun character member => digit_printable (digits character member)
  · exact name_printable name

private theorem inline_printable {node : Node} {text : List Char} (valid : node.wellFormed = true)
    (inline : node.inline = some text) : text.all isPrintable = true ↔ AllPrintable node.raws := by
  cases node with
  | word word =>
      cases inline
      simp [Node.raws, AllPrintable, word_printable valid]
  | emptySequence =>
      cases inline
      simp only [Node.raws, AllPrintable]
      decide
  | quoted raw =>
      cases inline
      have quote : isPrintable '"' = true := by decide
      simp [Node.raws, AllPrintable, quote]
  | mapping entries => cases inline
  | sequence items => cases inline

private theorem dashFirst_contents (found : List Line) :
    AllPrintable ((dashFirst found).map (·.content)) ↔ AllPrintable (found.map (·.content)) := by
  cases found with
  | nil => rfl
  | cons first rest =>
      have dash : isPrintable '-' = true := by decide
      have space : isPrintable ' ' = true := by decide
      simp [dashFirst, AllPrintable, dash, space]

mutual

/-- The lines of a tree are printable exactly when its quoted texts are. -/
theorem Node.contents_printable (node : Node) (indent : Nat) (collection : node.inline = none)
    (valid : node.wellFormed = true) :
    AllPrintable ((node.blockLines indent).map (·.content)) ↔ AllPrintable node.raws := by
  cases node with
  | word text => cases collection
  | emptySequence => cases collection
  | quoted raw => cases collection
  | mapping entries =>
      simp only [Node.wellFormed, Bool.and_eq_true] at valid
      exact entries_printable entries indent valid.2
  | sequence items =>
      simp only [Node.wellFormed, Bool.and_eq_true] at valid
      exact items_printable items indent valid.2

theorem entries_printable (entries : List (List Char × Node)) (indent : Nat)
    (valid : entriesWellFormed entries = true) :
    AllPrintable ((entryLines indent entries).map (·.content)) ↔
      AllPrintable (entryRaws entries) := by
  match entries with
  | [] => rfl
  | (key, node) :: rest =>
      simp only [entriesWellFormed, Bool.and_eq_true] at valid
      obtain ⟨⟨keyValid, nodeValid⟩, restValid⟩ := valid
      have colon : isPrintable ':' = true := by decide
      have space : isPrintable ' ' = true := by decide
      have keyPrintable : ∀ character ∈ key, isPrintable character = true := by
        simp only [isKey, Bool.and_eq_true] at keyValid
        exact List.all_eq_true.mp (name_printable keyValid.1.1)
      rw [entryLines, entryRaws, List.map_append, allPrintable_append, allPrintable_append,
        entries_printable rest indent restValid]
      refine and_congr_left fun _ => ?_
      cases inline : node.inline with
      | some text =>
          rw [← inline_printable nodeValid inline]
          simp [AllPrintable, or_imp, forall_and, colon, space]
          exact fun _ => keyPrintable
      | none =>
          rw [← node.contents_printable (indent + 2) inline nodeValid]
          simp [AllPrintable, or_imp, forall_and, colon]
          exact fun _ => keyPrintable

theorem items_printable (items : List Node) (indent : Nat) (valid : itemsWellFormed items = true) :
    AllPrintable ((itemLines indent items).map (·.content)) ↔ AllPrintable (itemRaws items) := by
  match items with
  | [] => rfl
  | node :: rest =>
      simp only [itemsWellFormed, Bool.and_eq_true] at valid
      obtain ⟨nodeValid, restValid⟩ := valid
      have dash : isPrintable '-' = true := by decide
      have space : isPrintable ' ' = true := by decide
      rw [itemLines, itemRaws, List.map_append, allPrintable_append, allPrintable_append,
        items_printable rest indent restValid]
      refine and_congr_left fun _ => ?_
      cases inline : node.inline with
      | some text =>
          rw [← inline_printable nodeValid inline]
          simp [AllPrintable, dash, space]
      | none =>
          rw [← node.contents_printable (indent + 2) inline nodeValid]
          exact dashFirst_contents _

end

/-- A document is printable exactly when its quoted texts are. -/
theorem Node.render_printable (node : Node) (collection : node.isCollection = true)
    (valid : node.wellFormed = true) :
    node.render.all isPrintable = true ↔ AllPrintable node.raws := by
  have inline : node.inline = none := by simpa [Node.isCollection] using collection
  have space : isPrintable ' ' = true := by decide
  have lineFeed : isPrintable '\n' = true := by decide
  rw [← node.contents_printable 0 inline valid]
  simp [Node.render, AllPrintable, Line.characters, List.all_flatMap, space, lineFeed]

end Kvist.Yaml
