import Kvist.Json.Records
import Kvist.Outcome
import Kvist.Text
import Kvist.Utf8

/-!
# The storage of decisions

Paths, bounded texts, and the tags that authenticate what is stored. A path is its bytes, and a file
is its bytes or is not there.
-/

set_option autoImplicit false

namespace Kvist.Decision

open Json Text

def maxFile : Nat := 1024 * 1024

def maxTotal : Nat := 8 * 1024 * 1024

abbrev PathBytes := List UInt8

structure Failure where
  path : PathBytes
  reason : String
  deriving DecidableEq

def fail (path : PathBytes) (reason : String) : Failure := ⟨path, "decision: " ++ reason⟩

def bytesOf (text : String) : PathBytes := utf8 text.toList

def directoryName : PathBytes := bytesOf ".kvist/decisions"

/-! ## Paths -/

def slash : UInt8 := 47

def dot : UInt8 := 46

def isAbsolute (path : PathBytes) : Bool := path.head? == some slash

/-- The parts of a path, and whether they start at the root. A `.` is a part only at the start of a
path that does not. -/
def components (path : PathBytes) : Bool × List PathBytes :=
  let parts := (path.splitOn slash).filter (!·.isEmpty)
  (isAbsolute path,
    (parts.take 1).filter (fun part => !isAbsolute path || part != [dot]) ++
      (parts.drop 1).filter (· != [dot]))

def joinPath (front back : PathBytes) : PathBytes :=
  if isAbsolute back then back
  else if front.isEmpty || front.getLast? == some slash then front ++ back
  else front ++ slash :: back

/-- The path from the root without any `.`; one with a `..` is refused. -/
def absolute (currentDir : Except Failure PathBytes) (path : PathBytes) :
    Except Failure PathBytes := do
  let path ← if isAbsolute path then pure path else do
    let directory ← currentDir
    pure (joinPath directory path)
  ensure (!(components path).2.contains [dot, dot])
    (fail path "parent traversal is not permitted")
  return slash :: [slash].intercalate ((components path).2.filter (· != [dot]))

/-! ## Texts -/

/-- Two texts, compared in a time that depends only on their lengths. -/
def equal (left right : List UInt8) : Bool :=
  left.length == right.length &&
    ((left.zip right).foldl (fun difference pair => difference ||| (pair.1 ^^^ pair.2)) 0) == 0

def bounded (text : List UInt8) (path : PathBytes) : Except Failure Unit :=
  ensure (text.length ≤ maxFile) (fail path "artifact exceeds 1 MiB; split the decision")

/-- The text in a file, where every access to the disk succeeds. -/
def readText (path : PathBytes) (bytes : List UInt8) : Except Failure (List UInt8) := do
  ensure (bytes.length ≤ maxFile)
    (fail path "input must be a regular file no larger than 1 MiB")
  ensure (Utf8.fromUtf8 bytes).isSome (fail path "input is not UTF-8")
  return bytes

/-! ## Tags -/

abbrev Hmac := List UInt8 → List UInt8 → String

def authenticated (hmac : Hmac) (value : Value) (secret : List UInt8) : String :=
  "hmac-sha256:" ++
    hmac secret (encode (insertMember "authentication_tag" (.string "") value.sorted))

/-- The parts before and after the last separator. -/
def rsplitOnceText (separator text : List Char) : Option (List Char × List Char) :=
  (splitOnceText separator.reverse text.reverse).map fun parts =>
    (parts.2.reverse, parts.1.reverse)

def authenticatedStructOrder (hmac : Hmac) (value : Value) (currentTag : String)
    (secret : List UInt8) : String :=
  let encoded := compact value
  let currentField := "\"authentication_tag\":".toList ++ compact (.string currentTag)
  let cleared :=
    match rsplitOnceText currentField encoded with
    | some (before, after) => before ++ "\"authentication_tag\":\"\"".toList ++ after
    | none => encoded
  "hmac-sha256:" ++ hmac secret (utf8 cleared)

/-! ## Rules -/

theorem equal_iff {left right : List UInt8} : equal left right = true ↔ left = right := by
  have zero : ∀ (pairs : List (UInt8 × UInt8)) (start : UInt8),
      pairs.foldl (fun difference pair => difference ||| (pair.1 ^^^ pair.2)) start = 0 ↔
        start = 0 ∧ ∀ pair ∈ pairs, pair.1 = pair.2 := by
    intro pairs
    induction pairs with
    | nil => simp
    | cons pair pairs ih =>
        intro start
        rw [List.foldl_cons, ih, UInt8.or_eq_zero_iff, UInt8.xor_eq_zero_iff]
        simp [and_assoc]
  rw [equal, Bool.and_eq_true, beq_iff_eq, beq_iff_eq, zero]
  constructor
  · rintro ⟨same, -, pairs⟩
    apply List.ext_getElem same
    intro index left right
    exact pairs _ (List.mem_iff_getElem.mpr ⟨index, by simpa using ⟨left, right⟩, List.getElem_zip⟩)
  · rintro rfl
    refine ⟨rfl, rfl, ?_⟩
    intro pair member
    obtain ⟨index, small, same⟩ := List.mem_iff_getElem.mp member
    rw [← same, List.getElem_zip]

theorem length_bytesOf (text : String) : (bytesOf text).length = text.utf8ByteSize := by
  rw [← String.size_toByteArray, ← String.utf8Encode_toList, List.utf8Encode,
    List.size_toByteArray]
  rfl

theorem bounded_ok_iff {text path : List UInt8} :
    bounded text path = .ok () ↔ text.length ≤ maxFile := by
  rw [bounded, ensure_ok_iff, decide_eq_true_eq]

theorem readText_ok_iff {path : PathBytes} {bytes text : List UInt8} :
    readText path bytes = .ok text ↔
      text = bytes ∧ bytes.length ≤ maxFile ∧ (Utf8.fromUtf8 bytes).isSome := by
  simp only [readText, bind_unit_ok_iff, ensure_ok_iff, decide_eq_true_eq, pure_eq_ok,
    Except.ok.injEq]
  tauto

end Kvist.Decision
