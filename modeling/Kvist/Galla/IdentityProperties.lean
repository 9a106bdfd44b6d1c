import Kvist.Framing
import Kvist.Galla.GenerationProperties
import Kvist.Galla.SourceProperties
import Kvist.Radix

/-!
# What the identity of a generation stands for

The hashed bytes are read back in one way, into the entries, the sources and the lockfiles. So a
generation that is reused under its identity has the content of the one that was built.
-/

set_option autoImplicit false

namespace Kvist.Galla.Generation

open Text Paths Framing
open Json (utf8_injective)
open Radix (toString_injective)

def FitsWord (field : List UInt8) : Prop := field.length < 18446744073709551616

theorem length_lengthBytes (length : Nat) : (lengthBytes length).length = 8 := rfl

private theorem quotient_eq {left right unit : Nat}
    (above : left / (unit * 256) = right / (unit * 256))
    (digit : left / unit % 256 = right / unit % 256) : left / unit = right / unit := by
  rw [← Nat.div_div_eq_div_mul, ← Nat.div_div_eq_div_mul] at above
  rw [← Nat.div_add_mod (left / unit) 256, above, digit, Nat.div_add_mod]

/-- The bytes are the digits of the length, the highest one first. -/
theorem lengthBytes_injective {left right : Nat} (leftSmall : left < 18446744073709551616)
    (rightSmall : right < 18446744073709551616) (same : lengthBytes left = lengthBytes right) :
    left = right := by
  have byte : ∀ value : Nat, (UInt8.ofNat value).toNat = value % 256 := fun value => by
    simp [UInt8.toNat_ofNat']
  have bytes := congrArg (List.map UInt8.toNat) same
  simp only [lengthBytes, List.map_cons, List.map_nil, byte, Nat.shiftRight_eq_div_pow,
    List.cons.injEq, and_true] at bytes
  obtain ⟨seventh, sixth, fifth, fourth, third, second, first, lowest⟩ := bytes
  have none : ∀ value < 18446744073709551616, value / (2 ^ 56 * 256) = 0 := fun value small =>
    Nat.div_eq_of_lt small
  have highest := quotient_eq ((none left leftSmall).trans (none right rightSmall).symm) seventh
  have above5 := @quotient_eq left right (2 ^ 48) highest sixth
  have above4 := @quotient_eq left right (2 ^ 40) above5 fifth
  have above3 := @quotient_eq left right (2 ^ 32) above4 fourth
  have above2 := @quotient_eq left right (2 ^ 24) above3 third
  have above1 := @quotient_eq left right (2 ^ 16) above2 second
  have above0 := @quotient_eq left right (2 ^ 8) above1 first
  simpa using @quotient_eq left right (2 ^ 0) above0 lowest

theorem identityField_delimits : Delimits FitsWord identityField :=
  delimits_header length_lengthBytes fun _ _ valid otherValid same =>
    lengthBytes_injective valid otherValid same

theorem identityField_ne_nil (field : List UInt8) : identityField field ≠ [] := by
  intro empty
  have length := congrArg List.length empty
  rw [identityField, List.length_append, length_lengthBytes] at length
  cases (Nat.add_eq_zero_iff.mp length).1

theorem validateDigest_ok {value : List Char} (accepted : validateDigest value = .ok ()) :
    ∃ hex, value = "sha256:".toList ++ hex ∧ Json.utf8Bytes hex = 64 := by
  rw [validateDigest] at accepted
  split at accepted
  · cases accepted
  · rename_i hex stripped
    simp only [ensure_ok_iff, Bool.and_eq_true, beq_iff_eq] at accepted
    exact ⟨hex, stripLeading_eq_some_iff.mp stripped, accepted.1⟩

theorem fitsWord_digest {hex : List Char} (length : Json.utf8Bytes hex = 64) :
    FitsWord (Json.utf8 ("sha256:".toList ++ hex)) := by
  have leading : (Json.utf8 "sha256:".toList).length = 7 := by decide
  rw [FitsWord, Json.utf8_append, List.length_append, Json.length_utf8 hex, leading, length]
  decide

theorem fitsWord_validated {value : List Char} (accepted : validateDigest value = .ok ()) :
    FitsWord (Json.utf8 value) := by
  obtain ⟨hex, rfl, length⟩ := validateDigest_ok accepted
  exact fitsWord_digest length

theorem entryFields_delimits : Delimits (fun _ => True) entryFields := by
  have kinds : Json.utf8 "dir".toList ≠ Json.utf8 "file".toList := by decide
  have modes : ∀ left right, modeText (.file 0 [] left) = modeText (.file 0 [] right) →
      left = right := by decide
  intro ⟨path, kind⟩ ⟨otherPath, otherKind⟩ rest more _ _ whole
  cases kind with
  | directory =>
      cases otherKind with
      | directory =>
          simp only [entryFields, List.cons_append, List.nil_append, List.cons.injEq] at whole
          obtain ⟨paths, -, -, tails⟩ := whole
          rw [utf8_injective paths]
          exact ⟨rfl, tails⟩
      | file otherSize otherChecksum otherExecutable =>
          simp only [entryFields, List.cons_append, List.cons.injEq] at whole
          exact absurd whole.2.1 kinds
  | file size checksum executable =>
      cases otherKind with
      | directory =>
          simp only [entryFields, List.cons_append, List.cons.injEq] at whole
          exact absurd whole.2.1.symm kinds
      | file otherSize otherChecksum otherExecutable =>
          simp only [entryFields, List.cons_append, List.nil_append, List.cons.injEq] at whole
          obtain ⟨paths, -, mode, sizes, checksums, tails⟩ := whole
          have anySize : ∀ size checksum mode, modeText (.file size checksum mode) =
              modeText (.file 0 [] mode) := by
            intro size checksum mode
            cases mode <;> rfl
          rw [anySize size, anySize otherSize] at mode
          rw [utf8_injective paths, toString_injective (utf8_injective sizes),
            utf8_injective checksums, modes executable otherExecutable mode]
          exact ⟨rfl, tails⟩

/-- A digest as a field of its own. -/
theorem digest_delimits : Delimits (fun value => validateDigest value = .ok ())
    (fun value => [Json.utf8 value]) := by
  intro value other rest more _ _ whole
  simp only [List.cons_append, List.nil_append, List.cons.injEq] at whole
  exact ⟨utf8_injective whole.1, whole.2⟩

theorem sources_stop {more : List (List UInt8)} :
    Stops (fun value => validateDigest value = .ok ()) (fun value => [Json.utf8 value])
      (Json.utf8 "lockfile-before".toList :: more) := by
  intro value rest valid same
  simp only [List.cons_append, List.nil_append, List.cons.injEq] at same
  rw [← utf8_injective same.1] at valid
  exact absurd valid (by decide)

/-- An entry named like the marker of the sources is told from it by the field behind. -/
theorem entries_stop {sources : List (List Char)} {more : List (List UInt8)}
    (valid : ∀ value ∈ sources, validateDigest value = .ok ()) :
    Stops (fun _ => True) entryFields (Json.utf8 "sources".toList ::
      (sources.map Json.utf8 ++ Json.utf8 "lockfile-before".toList :: more)) := by
  have second : ∀ kind : List Char, validateDigest kind ≠ .ok () →
      kind ≠ "lockfile-before".toList → ∀ rest,
      sources.map Json.utf8 ++ Json.utf8 "lockfile-before".toList :: more ≠
        Json.utf8 kind :: rest := by
    intro kind other marker rest same
    cases sources with
    | nil =>
        rw [List.map_nil, List.nil_append, List.cons.injEq] at same
        exact marker (utf8_injective same.1).symm
    | cons source sources =>
        rw [List.map_cons, List.cons_append, List.cons.injEq] at same
        rw [← utf8_injective same.1] at other
        exact other (valid source List.mem_cons_self)
  intro ⟨path, kind⟩ rest _ same
  cases kind with
  | directory => exact second "dir".toList (by decide) (by decide) _ (List.cons.inj same).2
  | file size checksum executable =>
      exact second "file".toList (by decide) (by decide) _ (List.cons.inj same).2

theorem treeFields_unique {entries others : List SourceEntry}
    {sources otherSources : List (List Char)} {before after otherBefore otherAfter : List Char}
    (valid : ∀ value ∈ sources, validateDigest value = .ok ())
    (otherValid : ∀ value ∈ otherSources, validateDigest value = .ok ())
    (same : treeFields entries sources before after =
      treeFields others otherSources otherBefore otherAfter) :
    entries = others ∧ sources.Perm otherSources ∧ before = otherBefore ∧ after = otherAfter := by
  have sortedValid : ∀ {values : List (List Char)},
      (∀ value ∈ values, validateDigest value = .ok ()) →
      ∀ value ∈ values.mergeSort textAtMost, validateDigest value = .ok () :=
    fun each value member => each value (List.mem_mergeSort.mp member)
  obtain ⟨entriesSame, markers⟩ := flatMap_unique entryFields_delimits (fun _ _ => trivial)
    (fun _ _ => trivial) (entries_stop (sortedValid valid)) (entries_stop (sortedValid otherValid))
    same
  have tails := (List.cons.inj markers).2
  rw [← List.flatMap_singleton' (sources.mergeSort _), ← List.flatMap_singleton' (otherSources.mergeSort _),
    List.map_flatMap, List.map_flatMap] at tails
  obtain ⟨sorted, lockfiles⟩ := flatMap_unique digest_delimits (sortedValid valid)
    (sortedValid otherValid) sources_stop sources_stop tails
  simp only [List.cons.injEq] at lockfiles
  refine ⟨entriesSame, ?_, utf8_injective lockfiles.2.1, utf8_injective lockfiles.2.2.2.1⟩
  exact (List.mergeSort_perm sources _).symm.trans
    (sorted ▸ List.mergeSort_perm otherSources _)

variable {sha256 : List UInt8 → Digest}

/-- What the acceptance of a plan says about its identities. -/
structure PlanAccepted (plan : PromotionPlan) : Prop where
  before : validateDigest plan.lockfileBeforeIdentity = .ok ()
  after : validateDigest plan.lockfileAfterIdentity = .ok ()
  sources : ∀ identity ∈ plan.supportedSourceIdentities, validateDigest identity = .ok ()

theorem validateSourceIdentities_ok {seen identities : List (List Char)}
    (accepted : validateSourceIdentities seen identities = .ok ()) :
    ∀ identity ∈ identities, validateDigest identity = .ok () := by
  induction identities generalizing seen with
  | nil => simp
  | cons first rest ih =>
      simp only [validateSourceIdentities, bind_unit_ok_iff] at accepted
      obtain ⟨valid, -, others⟩ := accepted
      intro identity member
      rcases List.mem_cons.mp member with rfl | later
      · exact valid
      · exact ih others identity later

theorem validatePlan_ok {plan : PromotionPlan} (accepted : validatePlan plan = .ok ()) :
    PlanAccepted plan := by
  simp only [validatePlan, bind_unit_ok_iff] at accepted
  obtain ⟨-, -, -, -, -, -, before, after, -, sources⟩ := accepted
  exact ⟨before, after, validateSourceIdentities_ok sources⟩

/-- The bytes that a plan's generation with these entries is named by. -/
def planPreimage (plan : PromotionPlan) (entries : List SourceEntry) : List UInt8 :=
  treePreimage entries plan.supportedSourceIdentities plan.lockfileBeforeIdentity
    plan.lockfileAfterIdentity

theorem fitsWord_size {size : Nat} (small : size < 18446744073709551616) :
    FitsWord (Json.utf8 (toString size).toList) := by
  have digits : (toString size).toList = Nat.toDigits 10 size := Nat.toList_repr
  have ascii : ∀ text : List Char, (∀ character ∈ text, character.isDigit = true) →
      Json.utf8Bytes text = text.length := by
    intro text
    induction text with
    | nil => exact fun _ => rfl
    | cons character rest ih =>
        intro all
        have digit := all character List.mem_cons_self
        have size : character.utf8Size = 1 := by
          rw [Char.utf8Size_eq_one_iff]
          simp only [Char.isDigit, Bool.and_eq_true, decide_eq_true_eq] at digit
          exact Nat.le_trans digit.2 (by decide)
        rw [Json.utf8Bytes, size, ih fun other member => all other (List.mem_cons_of_mem _ member),
          List.length_cons, Nat.add_comm]
  have few : (Nat.toDigits 10 size).length ≤ 20 :=
    (Nat.length_toDigits_le_iff (by decide) (by decide)).mpr (by omega)
  rw [FitsWord, Json.length_utf8, digits, ascii _ fun character member =>
    Nat.isDigit_of_mem_toDigits (by decide) (by decide) member]
  omega

theorem fitsWord_entry {root : Tree} {entry : SourceEntry}
    (found : Found sha256 [] root.children entry) : ∀ field ∈ entryFields entry, FitsWord field := by
  obtain ⟨components, node, kind, holds, kindSame, rfl⟩ := found
  have path : FitsWord (Json.utf8 (components.foldl joinRelative [])) := by
    rw [FitsWord, Json.length_utf8]
    exact root.pathsFit components node holds
  cases node with
  | directory foreign children =>
      obtain rfl := Option.some.inj kindSame
      have kind : FitsWord (Json.utf8 "dir".toList) := by unfold FitsWord; decide
      have mode : FitsWord (modeText .directory) := by unfold FitsWord; decide
      simpa [entryFields] using And.intro path (And.intro kind mode)
  | file bytes executable links =>
      obtain rfl := Option.some.inj kindSame
      have kind : FitsWord (Json.utf8 "file".toList) := by unfold FitsWord; decide
      have modes : ∀ mode, FitsWord (modeText (.file 0 [] mode)) := by unfold FitsWord; decide
      have mode : FitsWord (modeText (.file bytes.length (digestText sha256 bytes) executable)) := by
        cases executable with
        | false => exact modes false
        | true => exact modes true
      have size := fitsWord_size (root.sizesFit components bytes executable links holds)
      have checksum : FitsWord (Json.utf8 (digestText sha256 bytes)) :=
        fitsWord_digest (sha256 bytes).shape.1
      simpa [entryFields] using
        And.intro path (And.intro kind (And.intro mode (And.intro size checksum)))
  | symlink => cases kindSame
  | special => cases kindSame
  | failing error => cases kindSame

theorem fitsWord_fields {root : Tree} {bounds : CacheBounds} {entries : List SourceEntry}
    {plan : PromotionPlan} (collected : collectSource sha256 root bounds = .ok entries)
    (accepted : PlanAccepted plan) :
    ∀ field ∈ treeFields entries plan.supportedSourceIdentities plan.lockfileBeforeIdentity
      plan.lockfileAfterIdentity, FitsWord field := by
  have marker : ∀ text ∈ ["sources".toList, "lockfile-before".toList, "lockfile-after".toList],
      FitsWord (Json.utf8 text) := by
    unfold FitsWord
    decide
  intro field member
  simp only [treeFields, List.mem_append, List.mem_cons, List.mem_flatMap, List.mem_map,
    List.mem_mergeSort, List.not_mem_nil, or_false] at member
  rcases member with ⟨entry, present, inside⟩ | rfl | ⟨source, listed, rfl⟩ | rfl | rfl | rfl | rfl
  · exact fitsWord_entry ((collectSource_iff collected entry).mp present) field inside
  · exact marker _ (by simp)
  · exact fitsWord_validated (accepted.sources source listed)
  · exact marker _ (by simp)
  · exact fitsWord_validated accepted.before
  · exact marker _ (by simp)
  · exact fitsWord_validated accepted.after

theorem planPreimage_unique {root other : Tree} {bounds otherBounds : CacheBounds}
    {entries otherEntries : List SourceEntry} {plan otherPlan : PromotionPlan}
    (collected : collectSource sha256 root bounds = .ok entries)
    (otherCollected : collectSource sha256 other otherBounds = .ok otherEntries)
    (accepted : PlanAccepted plan) (otherAccepted : PlanAccepted otherPlan)
    (same : planPreimage plan entries = planPreimage otherPlan otherEntries) :
    entries = otherEntries ∧
      plan.supportedSourceIdentities.Perm otherPlan.supportedSourceIdentities ∧
      plan.lockfileBeforeIdentity = otherPlan.lockfileBeforeIdentity ∧
      plan.lockfileAfterIdentity = otherPlan.lockfileAfterIdentity := by
  have framed := List.append_cancel_left same
  rw [← List.append_nil (List.flatMap identityField _),
    ← List.append_nil (List.flatMap identityField (treeFields otherEntries _ _ _))] at framed
  obtain ⟨fields, -⟩ := flatMap_unique identityField_delimits
    (fitsWord_fields collected accepted) (fitsWord_fields otherCollected otherAccepted)
    (stops_nil identityField_ne_nil) (stops_nil identityField_ne_nil) framed
  exact treeFields_unique accepted.sources otherAccepted.sources fields

/-- What a directory or a file holds. -/
inductive Content where
  | directory
  | file (bytes : List UInt8) (executable : Bool)
  deriving DecidableEq, Repr

def Node.content : Node → Option Content
  | .directory _ _ => some .directory
  | .file bytes executable _ => some (.file bytes executable)
  | .symlink | .special | .failing _ => none

/-- The directory or the file that the names lead to. -/
def Tree.Contains (tree : Tree) (components : List (List Char)) (content : Content) : Prop :=
  ∃ node, tree.children.Holds components node ∧ node.content = some content

def SameContent (left right : Tree) : Prop :=
  ∀ components content, left.Contains components content ↔ right.Contains components content

/-- The trees that a promotion stages, or finds under the name of its generation. -/
def FileSystem.Sees (files : FileSystem) (tree : Tree) : Prop :=
  tree = files.staged ∨ files.existing = .present tree ∨ files.winner = .present tree

/-- The bytes that are hashed: the files of these trees, and what the trees are named by. -/
def Hashed (sha256 : List UInt8 → Digest) (plan : PromotionPlan) (files : FileSystem)
    (bytes : List UInt8) : Prop :=
  ∃ tree, files.Sees tree ∧
    ((∃ components executable, tree.Contains components (.file bytes executable)) ∨
      ∃ entries, collectSource sha256 tree plan.bounds = .ok entries ∧
        bytes = planPreimage plan entries)

/-- No two of the inputs have one hash. -/
def CollisionFree (sha256 : List UInt8 → Digest) (inputs : List UInt8 → Prop) : Prop :=
  ∀ left right, inputs left → inputs right → sha256 left = sha256 right → left = right

theorem digestText_injective {left right : List UInt8}
    (same : digestText sha256 left = digestText sha256 right) : sha256 left = sha256 right := by
  have digits := List.append_cancel_left same
  cases leftDigest : sha256 left with
  | mk leftDigits leftShape =>
      cases rightDigest : sha256 right with
      | mk rightDigits rightShape =>
          rw [leftDigest, rightDigest] at digits
          cases digits
          rfl

theorem content_file {node : Node} {size : Nat} {checksum : List Char} {executable : Bool}
    (kind : nodeKind sha256 node = some (.file size checksum executable)) :
    ∃ bytes, node.content = some (.file bytes executable) ∧ checksum = digestText sha256 bytes := by
  cases node with
  | file bytes fileExecutable links =>
      cases kind
      exact ⟨bytes, rfl, rfl⟩
  | directory foreign children => cases kind
  | symlink => cases kind
  | special => cases kind
  | failing error => cases kind

theorem content_directory {node : Node} (kind : nodeKind sha256 node = some .directory) :
    node.content = some .directory := by
  cases node with
  | directory foreign children => rfl
  | file bytes executable links => cases kind
  | symlink => cases kind
  | special => cases kind
  | failing error => cases kind

theorem contains_of_entries {left right : Tree} {bounds : CacheBounds} {entries : List SourceEntry}
    {inputs : List UInt8 → Prop} (collisionFree : CollisionFree sha256 inputs)
    (leftHashed : ∀ components bytes executable,
      left.Contains components (.file bytes executable) → inputs bytes)
    (rightHashed : ∀ components bytes executable,
      right.Contains components (.file bytes executable) → inputs bytes)
    (leftCollected : collectSource sha256 left bounds = .ok entries)
    (rightCollected : collectSource sha256 right bounds = .ok entries)
    {components : List (List Char)} {content : Content}
    (contains : left.Contains components content) : right.Contains components content := by
  obtain ⟨node, holds, same⟩ := contains
  obtain ⟨kind, kindSame⟩ : ∃ kind, nodeKind sha256 node = some kind := by
    cases node with
    | directory foreign children => exact ⟨_, rfl⟩
    | file bytes executable links => exact ⟨_, rfl⟩
    | symlink => cases same
    | special => cases same
    | failing error => cases same
  have member := (collectSource_iff leftCollected _).mpr ⟨components, node, kind, holds, kindSame, rfl⟩
  obtain ⟨others, other, otherKind, otherHolds, otherSame, equal⟩ :=
    (collectSource_iff rightCollected _).mp member
  obtain ⟨path, rfl⟩ := SourceEntry.mk.inj equal
  obtain rfl := relativePath_injective (holds.proper left.named) holds.ne_nil
    (otherHolds.proper right.named) otherHolds.ne_nil path
  refine ⟨other, otherHolds, ?_⟩
  cases kind with
  | directory => rw [← same, content_directory kindSame, content_directory otherSame]
  | file size checksum executable =>
      obtain ⟨bytes, nodeContent, checksumSame⟩ := content_file kindSame
      obtain ⟨otherBytes, otherContent, otherChecksum⟩ := content_file otherSame
      have bytesSame : bytes = otherBytes := by
        apply collisionFree bytes otherBytes
        · exact leftHashed components bytes executable ⟨node, holds, nodeContent⟩
        · exact rightHashed components otherBytes executable ⟨other, otherHolds, otherContent⟩
        · exact digestText_injective (checksumSame.symm.trans otherChecksum)
      rw [← same, nodeContent, otherContent, bytesSame]

theorem reuse_same_content {plan : PromotionPlan} {files : FileSystem} {existing : Tree}
    {entries : List SourceEntry} {name : List Char} {result : PublishedGeneration × Bool}
    (accepted : PlanAccepted plan) (collisionFree : CollisionFree sha256 (Hashed sha256 plan files))
    (seen : files.Sees existing)
    (staged : collectSource sha256 files.staged plan.bounds = .ok entries)
    (reused : reuseOrCollision sha256 plan existing name
      (digestText sha256 (planPreimage plan entries)) = .ok result) :
    SameContent existing files.staged := by
  simp only [reuseOrCollision, bind_ok_iff, ensure_eq_ok_iff, exists_const, beq_iff_eq] at reused
  obtain ⟨others, collected, identity, -⟩ := reused
  have preimages : planPreimage plan others = planPreimage plan entries := by
    apply collisionFree
    · exact ⟨existing, seen, .inr ⟨others, collected, rfl⟩⟩
    · exact ⟨files.staged, .inl rfl, .inr ⟨entries, staged, rfl⟩⟩
    · exact digestText_injective identity
  obtain ⟨rfl, -⟩ := planPreimage_unique collected staged accepted accepted preimages
  have existingHashed : ∀ components bytes executable,
      existing.Contains components (.file bytes executable) → Hashed sha256 plan files bytes :=
    fun components bytes executable contains =>
      ⟨existing, seen, .inl ⟨components, executable, contains⟩⟩
  have stagedHashed : ∀ components bytes executable,
      files.staged.Contains components (.file bytes executable) → Hashed sha256 plan files bytes :=
    fun components bytes executable contains =>
      ⟨files.staged, .inl rfl, .inl ⟨components, executable, contains⟩⟩
  intro components content
  constructor
  · exact contains_of_entries collisionFree existingHashed stagedHashed collected staged
  · exact contains_of_entries collisionFree stagedHashed existingHashed staged collected

theorem publish_reused {plan : PromotionPlan} {files : FileSystem} {name identity : List Char}
    {result : PublishedGeneration × Bool}
    (published : publish sha256 plan files name identity = .ok result)
    (reused : result.1.reused = true) : ∃ existing, files.winner = .present existing ∧
      reuseOrCollision sha256 plan existing name identity = .ok result := by
  rw [publish, bind_unit_ok_iff] at published
  obtain ⟨-, published⟩ := published
  cases renamed : files.rename with
  | done =>
      rw [renamed] at published
      rw [← Except.ok.inj published] at reused
      cases reused
  | failed =>
      rw [renamed] at published
      cases published
  | «exists» =>
      rw [renamed] at published
      obtain ⟨found, looked, published⟩ := bind_ok_iff.mp published
      cases found with
      | none => cases published
      | some existing =>
          refine ⟨existing, ?_, published⟩
          cases winner : files.winner with
          | absent => rw [winner] at looked; cases looked
          | present tree => rw [winner] at looked; cases looked; rfl
          | noDirectory => rw [winner] at looked; cases looked
          | failed => rw [winner] at looked; cases looked

theorem existingGeneration_some {existing : Existing} {name : List Char} {tree : Tree}
    (looked : existingGeneration existing name = .ok (some tree)) : existing = .present tree := by
  cases existing with
  | absent => cases looked
  | present other =>
      cases looked
      rfl
  | noDirectory => cases looked
  | failed => cases looked

theorem buildAndPublish_reused {plan : PromotionPlan} {files : FileSystem}
    {snapshot : List SourceEntry} {result : PublishedGeneration × Bool}
    (built : buildAndPublish sha256 plan files snapshot = .ok result)
    (reused : result.1.reused = true) :
    collectSource sha256 files.staged plan.bounds = .ok snapshot ∧
      ∃ existing name, (files.existing = .present existing ∨ files.winner = .present existing) ∧
        reuseOrCollision sha256 plan existing name
          (digestText sha256 (planPreimage plan snapshot)) = .ok result := by
  simp only [buildAndPublish, bind_unit_ok_iff] at built
  obtain ⟨-, built⟩ := built
  obtain ⟨finalSource, -, built⟩ := bind_ok_iff.mp built
  obtain ⟨-, built⟩ := bind_unit_ok_iff.mp built
  obtain ⟨staged, stagedCollected, built⟩ := bind_ok_iff.mp built
  obtain ⟨same, built⟩ := bind_unit_ok_iff.mp built
  obtain ⟨found, looked, built⟩ := bind_ok_iff.mp built
  rw [ensure_ok_iff, beq_iff_eq] at same
  rw [same] at stagedCollected
  refine ⟨stagedCollected, ?_⟩
  cases found with
  | none =>
      obtain ⟨existing, winner, verified⟩ := publish_reused built reused
      exact ⟨existing, _, .inr winner, verified⟩
  | some existing => exact ⟨existing, _, .inl (existingGeneration_some looked), built⟩

theorem promote_built {plan : PromotionPlan} {files : FileSystem}
    {generation : PublishedGeneration}
    (promoted : promote sha256 plan files = .ok generation) :
    PlanAccepted plan ∧ ∃ snapshot renamed,
      buildAndPublish sha256 plan files snapshot = .ok (generation, renamed) := by
  simp only [promote, bind_unit_ok_iff] at promoted
  obtain ⟨accepted, promoted⟩ := promoted
  obtain ⟨snapshot, -, promoted⟩ := bind_ok_iff.mp promoted
  obtain ⟨-, promoted⟩ := bind_unit_ok_iff.mp promoted
  obtain ⟨-, promoted⟩ := bind_unit_ok_iff.mp promoted
  refine ⟨validatePlan_ok accepted, snapshot, ?_⟩
  cases built : buildAndPublish sha256 plan files snapshot with
  | error error =>
      rw [built] at promoted
      cases promoted
  | ok result =>
      obtain ⟨other, renamed⟩ := result
      rw [built] at promoted
      cases renamed with
      | true => exact ⟨true, by rw [Except.ok.inj promoted]⟩
      | false =>
          dsimp only at promoted
          split at promoted
          · exact ⟨false, by rw [Except.ok.inj promoted]⟩
          · cases promoted

/-- The hashed bytes tell what a generation is made of, a manifest is accepted exactly if it lists
the files, and a reused generation has the content of the staged one. -/
theorem generation_identity (sha256 : List UInt8 → Digest) :
    (∀ (root other : Tree) (plan otherPlan : PromotionPlan) (entries otherEntries : List SourceEntry),
      validatePlan plan = .ok () → validatePlan otherPlan = .ok () →
      collectSource sha256 root plan.bounds = .ok entries →
      collectSource sha256 other otherPlan.bounds = .ok otherEntries →
      treePreimage entries plan.supportedSourceIdentities plan.lockfileBeforeIdentity
          plan.lockfileAfterIdentity =
        treePreimage otherEntries otherPlan.supportedSourceIdentities
          otherPlan.lockfileBeforeIdentity otherPlan.lockfileAfterIdentity →
      entries = otherEntries ∧
        plan.supportedSourceIdentities.Perm otherPlan.supportedSourceIdentities ∧
        plan.lockfileBeforeIdentity = otherPlan.lockfileBeforeIdentity ∧
        plan.lockfileAfterIdentity = otherPlan.lockfileAfterIdentity) ∧
    (∀ (root : Tree) (bounds : CacheBounds) (entries : List SourceEntry)
      (manifest : List ManifestEntry), collectSource sha256 root bounds = .ok entries →
      (reconcileManifest entries manifest = .ok () ↔
        ∀ file, file ∈ manifest ↔ root.Lists sha256 file)) ∧
    ∀ (plan : PromotionPlan) (files : FileSystem) (generation : PublishedGeneration),
      CollisionFree sha256 (Hashed sha256 plan files) →
      promote sha256 plan files = .ok generation → generation.reused = true →
      ∃ existing, (files.existing = .present existing ∨ files.winner = .present existing) ∧
        SameContent existing files.staged := by
  refine ⟨?_, ?_, ?_⟩
  · intro root other plan otherPlan entries otherEntries accepted otherAccepted collected
      otherCollected same
    exact planPreimage_unique collected otherCollected (validatePlan_ok accepted)
      (validatePlan_ok otherAccepted) same
  · intro root bounds entries manifest collected
    exact manifest_accepted_iff collected manifest
  · intro plan files generation collisionFree promoted reused
    obtain ⟨accepted, snapshot, renamed, built⟩ := promote_built promoted
    obtain ⟨staged, existing, name, seen, verified⟩ := buildAndPublish_reused built reused
    exact ⟨existing, seen, reuse_same_content accepted collisionFree (.inr seen) staged verified⟩

/-- A cache home with one file. -/
def configTree : Tree where
  foreign := false
  children := .cons "config".toList (.file [91, 110, 101, 116, 93, 10] false 1) .nil
  named := ⟨⟨by decide, by decide⟩, by decide, trivial, trivial⟩
  pathsFit := by
    intro components node holds
    cases holds with
    | here => decide
    | later holds => cases holds
  sizesFit := by
    intro components bytes executable links holds
    cases holds with
    | here => decide
    | later holds => cases holds

def configDigest : Digest where
  digits := "3d760e4415a5112b69df6a038c96c62ecd8951502e0ead6d0ef3f5d29f9b66e0".toList
  shape := by decide

def generationDigest : Digest where
  digits := "b94702d6a91f66edf426a6bc4aef8bee4324151095f7d0c2daab31711ea0ccae".toList
  shape := by decide

/-- The hashes of the file of this home, and of what the home is named by. -/
def configHash (bytes : List UInt8) : Digest :=
  if bytes.length = 6 then configDigest else generationDigest

def configPlan : PromotionPlan where
  attemptRoot := "/srv/attempt".toList
  generationParent := "/srv/generations".toList
  manifest := [⟨"config".toList, 6, "sha256:".toList ++ configDigest.digits⟩]
  bounds := ⟨16, 1024, 4096⟩
  lockfileBeforeIdentity := exampleIdentity
  lockfileAfterIdentity := exampleIdentity
  supportedSourceIdentities := [exampleIdentity]

/-- The generation of the home is there already. -/
def configFiles : FileSystem where
  source := configTree
  staging := .ok ()
  copied := .ok ()
  finalSource := configTree
  staged := configTree
  existing := .present configTree
  immutable := .ok ()
  rename := .exists
  winner := .present configTree
  parentSynced := true
  removed := true

def configEntries : List SourceEntry :=
  [⟨"config".toList, .file 6 ("sha256:".toList ++ configDigest.digits) false⟩]

theorem configTree_collected :
    collectSource configHash configTree configPlan.bounds = .ok configEntries :=
  eq_ok_of_toOption (by decide +kernel)

theorem configFiles_hashed {bytes : List UInt8}
    (hashed : Hashed configHash configPlan configFiles bytes) :
    bytes = [91, 110, 101, 116, 93, 10] ∨ bytes = planPreimage configPlan configEntries := by
  obtain ⟨tree, sees, hashed⟩ := hashed
  obtain rfl : tree = configTree := by
    rcases sees with rfl | sees | sees
    · rfl
    · exact (Existing.present.inj sees).symm
    · exact (Existing.present.inj sees).symm
  rcases hashed with ⟨components, executable, node, holds, same⟩ | ⟨entries, collected, rfl⟩
  · left
    cases holds with
    | here => cases same; rfl
    | later holds => cases holds
  · rw [configTree_collected] at collected
    rw [Except.ok.inj collected]
    exact .inr rfl

theorem configHash_collisionFree :
    CollisionFree configHash (Hashed configHash configPlan configFiles) := by
  have different : configHash [91, 110, 101, 116, 93, 10] ≠
      configHash (planPreimage configPlan configEntries) := by
    intro same
    have digits := congrArg Digest.digits same
    revert digits
    decide +kernel
  intro left right leftHashed rightHashed same
  rcases configFiles_hashed leftHashed with rfl | rfl <;>
    rcases configFiles_hashed rightHashed with rfl | rfl
  · rfl
  · exact absurd same different
  · exact absurd same.symm different
  · rfl

def configGeneration : PublishedGeneration where
  path := "/srv/generations/generation-".toList ++ generationDigest.digits
  identity := "sha256:".toList ++ generationDigest.digits
  durability := .synced
  reused := true

theorem generation_identity_config :
    ∃ existing, (configFiles.existing = .present existing ∨
        configFiles.winner = .present existing) ∧ SameContent existing configFiles.staged :=
  (generation_identity configHash).2.2 configPlan configFiles configGeneration
    configHash_collisionFree (eq_ok_of_toOption (by decide +kernel)) rfl

end Kvist.Galla.Generation
