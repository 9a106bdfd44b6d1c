import Kvist.Decision.Types
import Kvist.Occurrences

/-!
# The documents of a draft

Full replacements and literal edits turn the captured documents into the ones the draft proposes. An
edit names an excerpt that stands at one place only.
-/

set_option autoImplicit false

namespace Kvist.Decision

/-- `usize::saturating_add`. -/
def saturatingAdd (left right : Nat) : Nat := min (left + right) (2 ^ 64 - 1)

def intentNames : List String := ["REQUIREMENTS.md", "CONTRACT.md", "DESIGN.md"]

def allowed (path : String) : Except Failure Unit :=
  ensure (intentNames.contains path)
    (fail directoryName
      "document changes may target only local REQUIREMENTS.md, CONTRACT.md and DESIGN.md")

def aggregate (documents : Texts) : Except Failure Unit :=
  let bytes := (documents.values.map fun text => (bytesOf text).length).foldl saturatingAdd 0
  ensure (bytes ≤ maxTotal) (fail directoryName "complete candidate documents exceed 8 MiB")

def replaceDocument (documents : Texts) (replacement : String × String) :
    Except Failure Texts := do
  allowed replacement.1
  bounded (bytesOf replacement.2) (bytesOf replacement.1)
  let documents := documents.insert replacement.1 replacement.2
  aggregate documents
  return documents

/-- All places at which the needle stands, also those that overlap. -/
def places (needle text : List Char) : List Nat :=
  (List.range text.length).filter (Occurrences.occursAt needle text)

def editedText (text before after : List Char) (start : Nat) : List Char :=
  text.take start ++ after ++ text.drop (start + before.length)

/-- `checked_sub` and `checked_add` on the lengths in bytes. -/
def editedLength (text before after : List UInt8) : Option Nat :=
  if before.length ≤ text.length ∧ text.length - before.length + after.length < 2 ^ 64 then
    some (text.length - before.length + after.length)
  else none

def editDocument (replaced : List String) (documents : Texts) (edit : DocumentEdit) :
    Except Failure Texts := do
  allowed edit.path
  let path := bytesOf edit.path
  ensure (!replaced.contains edit.path)
    (fail path "a document cannot have both a full replacement and literal edits")
  ensure (edit.before != "") (fail path "document edit anchors must be nonempty")
  bounded (bytesOf edit.before) path
  bounded (bytesOf edit.after) path
  let text ← okOr (documents.get edit.path)
    (fail path "edited document is not in the captured local intent")
  let found := places edit.before.toList text.toList
  let start ← okOr found.head?
    (fail path "document edit anchor does not match; use an exact current excerpt")
  ensure (found.getLast? == some start)
    (fail path ("document edit anchor is ambiguous, including overlapping matches; " ++
      "use a unique exact excerpt"))
  let length ← okOr (editedLength (bytesOf text) (bytesOf edit.before) (bytesOf edit.after))
    (fail path "edited document size is invalid")
  ensure (length ≤ maxFile) (fail path "complete edited document exceeds 1 MiB")
  let documents := documents.insert edit.path
    (String.ofList (editedText text.toList edit.before.toList edit.after.toList start))
  aggregate documents
  return documents

/-- What validates the text of a document, given its name. -/
abbrev ValidateDocument := String → String → Except Failure Unit

def requireDocument (validateDocument : ValidateDocument) (documents : Texts) (path : String) :
    Except Failure Unit := do
  let text ← okOr (documents.get path)
    (fail (bytesOf path) "local intent document is missing from the capture")
  validateDocument path text

def materialize (validateDocument : ValidateDocument) (captured replacements : Texts)
    (edits : List DocumentEdit) : Except Failure Texts := do
  ensure (edits.length ≤ 128)
    (fail directoryName "a draft permits at most 128 sequential document edits")
  let documents ← replacements.entries.foldlM replaceDocument captured
  let documents ← edits.foldlM (editDocument replacements.keys) documents
  checkAll (requireDocument validateDocument documents) intentNames
  aggregate documents
  return documents

theorem allowed_ok {path : String} (accepted : allowed path = .ok ()) : path ∈ intentNames := by
  rw [allowed, ensure_ok_iff] at accepted
  simpa using accepted

theorem replaceDocument_keys {documents next : Texts} {replacement : String × String}
    (accepted : replaceDocument documents replacement = .ok next) :
    ∀ name ∈ next.keys, name ∈ documents.keys ∨ name ∈ intentNames := by
  simp only [replaceDocument, bind_ok_iff, pure_eq_ok, Except.ok.injEq] at accepted
  obtain ⟨⟨⟩, named, -, -, -, -, rfl⟩ := accepted
  intro name member
  rcases OrderedMap.mem_keys_insert.mp member with rfl | earlier
  · exact .inr (allowed_ok named)
  · exact .inl earlier

theorem editDocument_keys {replaced : List String} {documents next : Texts} {edit : DocumentEdit}
    (accepted : editDocument replaced documents edit = .ok next) :
    ∀ name ∈ next.keys, name ∈ documents.keys ∨ name ∈ intentNames := by
  simp only [editDocument, bind_ok_iff, pure_eq_ok, Except.ok.injEq] at accepted
  obtain ⟨⟨⟩, named, -, -, -, -, -, -, -, -, -, -, -, -, -, -, -, -, -, -, -, -, -, rfl⟩ := accepted
  intro name member
  rcases OrderedMap.mem_keys_insert.mp member with rfl | earlier
  · exact .inr (allowed_ok named)
  · exact .inl earlier

/-- No document comes in but the three. -/
theorem materialize_keys {validateDocument : ValidateDocument} {captured replacements : Texts}
    {edits : List DocumentEdit} {documents : Texts}
    (accepted : materialize validateDocument captured replacements edits = .ok documents) :
    ∀ name ∈ documents.keys, name ∈ captured.keys ∨ name ∈ intentNames := by
  simp only [materialize, bind_ok_iff, ensure_eq_ok_iff, exists_const, pure_eq_ok,
    Except.ok.injEq] at accepted
  obtain ⟨-, replaced, first, final, second, -, -, -, -, rfl⟩ := accepted
  have replacing := foldlM_ok_invariant
    (fun _ (texts : Texts) => ∀ name ∈ texts.keys, name ∈ captured.keys ∨ name ∈ intentNames)
    (fun _ _ _ _ _ _ kept step name member =>
      (replaceDocument_keys step name member).elim (kept name) .inr)
    (fun _ member => .inl member) first
  exact foldlM_ok_invariant
    (fun _ (texts : Texts) => ∀ name ∈ texts.keys, name ∈ captured.keys ∨ name ∈ intentNames)
    (fun _ _ _ _ _ _ kept step name member =>
      (editDocument_keys step name member).elim (kept name) .inr) replacing second

end Kvist.Decision
