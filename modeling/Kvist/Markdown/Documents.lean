import Kvist.ByteText
import Kvist.Galla.Enforcement
import Kvist.Markdown.Structure

/-!
# Component documents

A component document begins with a marker for its version and has its required sections once, in
order and with content. One that does not is repaired: its lines are put under the required headings
that they stand behind, and a section without content gets a placeholder.
-/

set_option autoImplicit false

namespace Kvist.Markdown

open Text
open Galla (eqIgnoreAsciiCase parseUnsigned)

/-! ## Kinds -/

inductive DocumentKind where
  | requirements
  | contract
  | design
  deriving DecidableEq

def maxComponentDocumentBytes : Nat := 1024 * 1024

namespace DocumentKind

def version : DocumentKind → Nat
  | .requirements => 1
  | .contract => 1
  | .design => 1

def marker : DocumentKind → List Char
  | .requirements => "kvist-requirements-version".toList
  | .contract => "kvist-contract-version".toList
  | .design => "kvist-design-version".toList

/-- The first line of the template. -/
def templateMarker : DocumentKind → List Char
  | .requirements => "<!-- kvist-requirements-version: 1 -->".toList
  | .contract => "<!-- kvist-contract-version: 1 -->".toList
  | .design => "<!-- kvist-design-version: 1 -->".toList

def requiredSections : DocumentKind → List (List Char)
  | .requirements =>
      ["## Purpose and scope".toList,
        "## Stakeholders and concerns".toList,
        "## Functional requirements".toList,
        "## Quality requirements and constraints".toList,
        "## Acceptance and traceability".toList]
  | .contract =>
      ["## Boundary and ownership".toList,
        "## Provided interfaces".toList,
        "## Required interfaces".toList,
        "## Data and schemas".toList,
        "## Behavioral guarantees".toList,
        "## Errors and failure semantics".toList,
        "## Security and authority".toList,
        "## Compatibility and verification".toList]
  | .design =>
      ["## Design overview".toList,
        "## Internal structure".toList,
        "## Interactions and state".toList,
        "## Algorithms and decisions".toList,
        "## Failure and recovery".toList,
        "## Security and resource design".toList,
        "## Verification strategy".toList]

end DocumentKind

/-! ## Validation -/

inductive DiagnosticKind where
  | missingTemplateVersion
  | invalidTemplateVersion
  | unsupportedTemplateVersion (found supported : Nat)
  | missingSection (heading : List Char)
  | duplicateSection (heading : List Char)
  | invalidSectionOrder (heading : List Char)
  | emptySection (heading : List Char)

structure Diagnostic where
  kind : DiagnosticKind
  line : Nat
  column : Nat

structure Validation where
  kind : DocumentKind
  templateVersion : Option Nat
  diagnostics : List Diagnostic
  recoveryBlockers : List (List Char)

def Validation.isValid (validation : Validation) : Bool := validation.diagnostics.isEmpty

def validateTemplateVersion (kind : DocumentKind) (lines : List (List Char)) :
    Option Nat × List Diagnostic :=
  let expectedPrefix := "<!-- ".toList ++ kind.marker ++ ": ".toList
  let column := ByteText.byteLength expectedPrefix + 1
  match lines with
  | [] => (none, [⟨.missingTemplateVersion, 1, 1⟩])
  | firstLine :: _ =>
      match (stripLeading expectedPrefix firstLine).bind (stripTrailing " -->".toList) with
      | none => (none, [⟨.missingTemplateVersion, 1, 1⟩])
      | some versionText =>
          match parseUnsigned 4294967295 versionText with
          | none => (none, [⟨.invalidTemplateVersion, 1, column⟩])
          | some version =>
              (some version,
                if version = 0 then [⟨.invalidTemplateVersion, 1, column⟩]
                else if version ≠ kind.version then
                  [⟨.unsupportedTemplateVersion version kind.version, 1, column⟩]
                else [])

def occurrences (document : List Line) (heading : List Char) : List Nat :=
  (document.zipIdx.filter fun line => line.1.text = heading && line.1.heading = some 2).map (·.2)

/-- What is wrong with a section, and the last line of a heading so far. -/
def checkSection (document : List Line) (state : Nat × List Diagnostic) (heading : List Char) :
    Nat × List Diagnostic :=
  match occurrences document heading with
  | [] => (state.1, state.2 ++ [⟨.missingSection heading, document.length + 1, 1⟩])
  | [index] =>
      (max state.1 (index + 1),
        state.2 ++
          (if index + 1 < state.1 then [⟨.invalidSectionOrder heading, index + 1, 1⟩] else []) ++
          if sectionHasContent document index then []
          else [⟨.emptySection heading, index + 1, 1⟩])
  | first :: duplicate :: _ =>
      (max state.1 (first + 1), state.2 ++ [⟨.duplicateSection heading, duplicate + 1, 1⟩])

def diagnosticOrder (left right : Diagnostic) : Bool :=
  left.line < right.line || (left.line = right.line && left.column ≤ right.column)

def validate (kind : DocumentKind) (contents : List Char) : Validation :=
  let (templateVersion, diagnostics) := validateTemplateVersion kind (lines contents)
  let (_, diagnostics) :=
    kind.requiredSections.foldl (checkSection (scan contents)) (0, diagnostics)
  ⟨kind, templateVersion, diagnostics.mergeSort diagnosticOrder, blockers contents⟩

/-! ## Sections -/

/-- A reason for a change. It keeps the heading that its message names. -/
inductive Reason where
  | prependMarker
  | mergeDuplicate (heading : List Char)
  | canonicalizeHeading (heading : List Char)
  | addPlaceholder (heading : List Char)
  | nativeOrder
  | recoveryDraft

/-- The lines as far as they are put under headings. -/
structure Sorting where
  bodies : List (List Char)
  seen : List Bool
  extra : List Char
  current : Option Nat
  reasons : List Reason

def Sorting.start (headings : List (List Char)) (reasons : List Reason) : Sorting :=
  ⟨headings.map fun _ => [], headings.map fun _ => false, [], none, reasons⟩

def recognize (headings : List (List Char)) (line : Line) : Option Nat :=
  headings.findIdx? fun heading =>
    line.heading = some 2 && eqIgnoreAsciiCase (trimList line.text) heading

def sortLine (headings : List (List Char)) (sorting : Sorting) (line : Line) : Sorting :=
  match recognize headings line with
  | some index =>
      let heading := (headings[index]?).getD []
      { sorting with
        reasons :=
          if (sorting.seen[index]?).getD false then sorting.reasons ++ [.mergeDuplicate heading]
          else if line.text ≠ heading then sorting.reasons ++ [.canonicalizeHeading heading]
          else sorting.reasons
        seen := sorting.seen.set index true
        current := some index }
  | none =>
      let current := if line.heading.any (· ≤ 2) then none else sorting.current
      match current with
      | some index =>
          { sorting with
            current := current
            bodies := sorting.bodies.modify index (· ++ line.text ++ ['\n']) }
      | none => { sorting with current := none, extra := sorting.extra ++ line.text ++ ['\n'] }

def placeholderReason (heading : List Char) : List Char :=
  "required section \x60".toList ++ heading ++
    "\x60 was missing or empty; review retained material".toList

def bodyHasContent (heading body : List Char) : Bool :=
  sectionHasContent (scan (joinLines (heading :: lines body))) 0

def sectionText (heading body : List Char) : List Char :=
  '\n' :: heading ++ ['\n', '\n'] ++
    (if bodyHasContent heading body then [] else draft (placeholderReason heading)) ++ body

def sections (kind : DocumentKind) (contents : List Char) (reasons : List Reason) :
    List Char × List Reason :=
  let headings := kind.requiredSections
  let sorting := (scan contents).foldl (sortLine headings) (Sorting.start headings reasons)
  let pairs := headings.zip sorting.bodies
  (sorting.extra ++ pairs.flatMap (fun pair => sectionText pair.1 pair.2),
    sorting.reasons ++
      (pairs.filter fun pair => !bodyHasContent pair.1 pair.2).map (fun pair => .addPlaceholder pair.1) ++
      [.nativeOrder])

/-! ## Repair -/

structure Candidate where
  contents : List Char
  reasons : List Reason

/-- An error keeps the data that its message names. -/
inductive Failure where
  | invalidMarker
  | unsupportedVersion
  | invalidDocument (diagnostics : List Diagnostic)
  | tooLarge

/-- The line declares another version than the first one. -/
def declaresOtherVersion (markerName declaration : List Char) : Bool :=
  let shown := trimList (trimStartMatches ['\ufeff'] (trimList declaration))
  (splitOnce ':' (trimStartMatches commentStart shown)).any fun parts =>
    eqIgnoreAsciiCase (trimList parts.1) markerName &&
      (parseUnsigned 4294967295
        (trimList (trimEndMatches commentEnd (trimList parts.2)))).any (· ≠ 1)

def withMarker (kind : DocumentKind) (contents : List Char) : List Char × List Reason :=
  if (lines contents).head?.getD [] = kind.templateMarker then (contents, [])
  else (kind.templateMarker ++ '\n' :: contents, [.prependMarker])

def candidate (kind : DocumentKind) (contents : List Char) : Except Failure Candidate := do
  let markerName ← okOr ((splitOnce ':' (trimStartMatches commentStart kind.templateMarker)).map
    fun parts => trimList parts.1) .invalidMarker
  let declaration := ((lines contents).find? fun line => !(trimList line).isEmpty).getD []
  ensure (!declaresOtherVersion markerName declaration) .unsupportedVersion
  let marked := withMarker kind contents
  let recovered :=
    if (validate kind marked.1).isValid then marked else sections kind marked.1 marked.2
  ensure (validate kind recovered.1).isValid
    (.invalidDocument (validate kind recovered.1).diagnostics)
  ensure (ByteText.byteLength recovered.1 ≤ maxComponentDocumentBytes) .tooLarge
  return ⟨recovered.1, recovered.2 ++ [.recoveryDraft]⟩

end Kvist.Markdown
