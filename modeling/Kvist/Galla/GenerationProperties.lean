import Kvist.Galla.Generation
import Kvist.Galla.OriginProperties

/-!
# What a walk finds

A walk finds exactly the directories and the files of a tree, each under its own path, and a
manifest is accepted exactly if it lists the files.
-/

set_option autoImplicit false

namespace Kvist.Galla.Generation

open Text Paths

variable {sha256 : List UInt8 → Digest}

/-- The path of what the names lead to. -/
def relativePath (components : List (List Char)) : List Char := components.foldl joinRelative []

/-- What a walk records of a node. -/
def nodeKind (sha256 : List UInt8 → Digest) : Node → Option EntryKind
  | .directory _ _ => some .directory
  | .file bytes executable _ => some (.file bytes.length (digestText sha256 bytes) executable)
  | .symlink | .special | .failing _ => none

def Found (sha256 : List UInt8 → Digest) (parent : List Char) (children : Children)
    (entry : SourceEntry) : Prop :=
  ∃ components node kind, children.Holds components node ∧ nodeKind sha256 node = some kind ∧
    entry = ⟨components.foldl joinRelative parent, kind⟩

def NodeFound (sha256 : List UInt8 → Digest) (path : List Char) (node : Node)
    (entry : SourceEntry) : Prop :=
  (∃ kind, nodeKind sha256 node = some kind ∧ entry = ⟨path, kind⟩) ∨
    ∃ foreign children, node = .directory foreign children ∧ Found sha256 path children entry

theorem not_found_nil {parent : List Char} {entry : SourceEntry} :
    ¬Found sha256 parent .nil entry := by
  intro ⟨_, _, _, holds, _⟩
  cases holds

theorem found_cons {parent name : List Char} {node : Node} {rest : Children}
    {entry : SourceEntry} : Found sha256 parent (.cons name node rest) entry ↔
      NodeFound sha256 (joinRelative parent name) node entry ∨ Found sha256 parent rest entry := by
  constructor
  · intro ⟨components, found, kind, holds, kindSame, same⟩
    cases holds with
    | here => exact .inl (.inl ⟨kind, kindSame, same⟩)
    | inside holds => exact .inl (.inr ⟨_, _, rfl, _, found, kind, holds, kindSame, same⟩)
    | later holds => exact .inr ⟨components, found, kind, holds, kindSame, same⟩
  · intro found
    rcases found with (⟨kind, kindSame, same⟩ | ⟨foreign, children, rfl, components, below, kind,
      holds, kindSame, same⟩) | ⟨components, below, kind, holds, kindSame, same⟩
    · exact ⟨[name], node, kind, .here, kindSame, same⟩
    · exact ⟨name :: components, below, kind, .inside holds, kindSame, same⟩
    · exact ⟨components, below, kind, .later holds, kindSame, same⟩

mutual
/-- A walk adds the entries of the node and of what is below it. -/
theorem collectNode_ok {bounds : CacheBounds} {path : List Char} {depth : Nat}
    {state final : CollectionState} (node : Node)
    (collected : collectNode sha256 bounds path depth state node = .ok final) (entry : SourceEntry) :
    entry ∈ final.entries ↔ entry ∈ state.entries ∨ NodeFound sha256 path node entry := by
  cases node with
  | symlink => cases collected
  | special => cases collected
  | failing error => cases collected
  | file bytes executable links =>
      simp only [collectNode, bind_unit_ok_iff, ensure_ok_iff, pure_eq_ok, Except.ok.injEq]
        at collected
      obtain ⟨-, -, -, -, rfl⟩ := collected
      simp [NodeFound, nodeKind]
  | directory foreign children =>
      simp only [collectNode, bind_unit_ok_iff, ensure_ok_iff] at collected
      obtain ⟨-, -, -, collected⟩ := collected
      rw [collectChildren_ok children collected entry]
      simp [NodeFound, nodeKind, or_assoc]

theorem collectChildren_ok {bounds : CacheBounds} {parent : List Char} {depth : Nat}
    {state final : CollectionState} (children : Children)
    (collected : collectChildren sha256 bounds parent depth state children = .ok final)
    (entry : SourceEntry) :
    entry ∈ final.entries ↔ entry ∈ state.entries ∨ Found sha256 parent children entry := by
  cases children with
  | nil =>
      obtain rfl := Except.ok.inj collected
      simp [not_found_nil]
  | cons name node rest =>
      rw [collectChildren, bind_ok_iff] at collected
      obtain ⟨middle, first, others⟩ := collected
      rw [collectChildren_ok rest others entry, collectNode_ok node first entry, found_cons, or_assoc]
end

theorem joinRelative_fold {parent : List Char} (nonempty : parent ≠ [])
    (components : List (List Char)) :
    components.foldl joinRelative parent = parent ++ render components := by
  induction components generalizing parent with
  | nil => simp
  | cons name rest ih =>
      have joined : joinRelative parent name = parent ++ '/' :: name := by
        rw [joinRelative, if_neg (by simpa using nonempty)]
      rw [List.foldl_cons, joined, ih (by simp)]
      simp

theorem relativePath_render {components : List (List Char)} (proper : Proper components)
    (nonempty : components ≠ []) : '/' :: relativePath components = render components := by
  cases components with
  | nil => exact absurd rfl nonempty
  | cons name rest =>
      have first : joinRelative [] name = name := rfl
      rw [relativePath, List.foldl_cons, first,
        joinRelative_fold (proper name List.mem_cons_self).1]
      rfl

theorem relativePath_injective {components others : List (List Char)} (proper : Proper components)
    (nonempty : components ≠ []) (othersProper : Proper others) (othersNonempty : others ≠ [])
    (same : relativePath components = relativePath others) : components = others := by
  have rendered : render components = render others := by
    rw [← relativePath_render proper nonempty, ← relativePath_render othersProper othersNonempty,
      same]
  rw [← split_render proper, rendered, split_render othersProper]

namespace Children

theorem Holds.first_name {children : Children} {components : List (List Char)} {node : Node}
    (holds : children.Holds components node) :
    ∃ name rest, components = name :: rest ∧ name ∈ children.names := by
  induction holds with
  | here => exact ⟨_, [], rfl, List.mem_cons_self⟩
  | inside => exact ⟨_, _, rfl, List.mem_cons_self⟩
  | later _ ih =>
      obtain ⟨name, rest, same, member⟩ := ih
      exact ⟨name, rest, same, List.mem_cons_of_mem _ member⟩

theorem Holds.ne_nil {children : Children} {components : List (List Char)} {node : Node}
    (holds : children.Holds components node) : components ≠ [] := by
  obtain ⟨name, rest, rfl, -⟩ := holds.first_name
  exact List.cons_ne_nil name rest

theorem Holds.proper {children : Children} {components : List (List Char)} {node : Node}
    (holds : children.Holds components node) (named : children.Named) : Proper components := by
  induction holds with
  | here =>
      intro component member
      rw [List.mem_singleton.mp member]
      exact named.1
  | inside _ ih =>
      obtain ⟨first, -, below, -⟩ := named
      intro component member
      rcases List.mem_cons.mp member with rfl | inner
      · exact first
      · exact ih below component inner
  | later _ ih => exact ih named.2.2.2

theorem Holds.unique {children : Children} {components : List (List Char)} {node other : Node}
    (holds : children.Holds components node) (named : children.Named)
    (otherHolds : children.Holds components other) : node = other := by
  induction holds with
  | here =>
      cases otherHolds with
      | here => rfl
      | inside holds => exact absurd rfl holds.ne_nil
      | later holds =>
          obtain ⟨name, rest, same, member⟩ := holds.first_name
          cases same
          exact absurd member named.2.1
  | inside inner ih =>
      cases otherHolds with
      | here => exact absurd rfl inner.ne_nil
      | inside holds => exact ih named.2.2.1 holds
      | later holds =>
          obtain ⟨name, rest, same, member⟩ := holds.first_name
          cases same
          exact absurd member named.2.1
  | later inner ih =>
      obtain ⟨name, rest, same, member⟩ := inner.first_name
      cases otherHolds with
      | here =>
          cases same
          exact absurd member named.2.1
      | inside holds =>
          cases same
          exact absurd member named.2.1
      | later holds => exact ih named.2.2.2 holds

end Children

/-- A walk finds exactly the directories and the files of the tree. -/
theorem collectSource_iff {root : Tree} {bounds : CacheBounds} {entries : List SourceEntry}
    (collected : collectSource sha256 root bounds = .ok entries) (entry : SourceEntry) :
    entry ∈ entries ↔ Found sha256 [] root.children entry := by
  simp only [collectSource, bind_ok_iff, ensure_eq_ok_iff, exists_const, pure_eq_ok,
    Except.ok.injEq] at collected
  obtain ⟨-, state, walked, rfl⟩ := collected
  rw [List.mem_mergeSort, collectChildren_ok root.children walked entry]
  simp

theorem Found.unique {root : Tree} {entry other : SourceEntry}
    (found : Found sha256 [] root.children entry) (otherFound : Found sha256 [] root.children other)
    (same : entry.path = other.path) : entry = other := by
  obtain ⟨components, node, kind, holds, kindSame, rfl⟩ := found
  obtain ⟨others, otherNode, otherKind, otherHolds, otherKindSame, rfl⟩ := otherFound
  obtain rfl := relativePath_injective (holds.proper root.named) holds.ne_nil
    (otherHolds.proper root.named) otherHolds.ne_nil same
  obtain rfl := holds.unique root.named otherHolds
  rw [kindSame] at otherKindSame
  rw [Option.some.inj otherKindSame]

theorem mem_collectedFiles {entries : List SourceEntry} {file : ManifestEntry} :
    file ∈ collectedFiles entries ↔
      ∃ executable, ⟨file.path, .file file.size file.checksum executable⟩ ∈ entries := by
  rw [collectedFiles, List.mem_filterMap]
  constructor
  · intro ⟨entry, member, found⟩
    obtain ⟨path, kind⟩ := entry
    cases kind with
    | directory => cases found
    | file size checksum executable =>
        obtain rfl := Option.some.inj found
        exact ⟨executable, member⟩
  · intro ⟨executable, member⟩
    exact ⟨_, member, rfl⟩

theorem reconcileDeclared_iff {collected : List ManifestEntry}
    (functional : ∀ left ∈ collected, ∀ right ∈ collected, left.path = right.path → left = right)
    (declared : ManifestEntry) :
    reconcileDeclared collected declared = .ok () ↔ declared ∈ collected := by
  rw [reconcileDeclared]
  cases found : collected.reverse.find? (·.path == declared.path) with
  | none =>
      have absent := List.find?_eq_none.mp found
      constructor
      · intro accepted
        cases accepted
      · intro member
        exact absurd (beq_self_eq_true _) (absent declared (List.mem_reverse.mpr member))
  | some file =>
      have member := List.mem_reverse.mp (List.mem_of_find?_eq_some found)
      have path : file.path = declared.path := by simpa using List.find?_some found
      simp only [bind_unit_ok_iff, ensure_ok_iff, beq_iff_eq]
      constructor
      · intro same
        obtain ⟨size, checksum⟩ := same
        obtain ⟨filePath, fileSize, fileChecksum⟩ := file
        obtain ⟨declaredPath, declaredSize, declaredChecksum⟩ := declared
        cases path
        cases size
        cases checksum
        exact member
      · intro present
        rw [functional file member declared present path]
        exact ⟨rfl, rfl⟩

theorem reconcileManifest_iff {entries : List SourceEntry} {manifest : List ManifestEntry}
    (functional : ∀ left ∈ collectedFiles entries, ∀ right ∈ collectedFiles entries,
      left.path = right.path → left = right) :
    reconcileManifest entries manifest = .ok () ↔
      ∀ file, file ∈ manifest ↔ file ∈ collectedFiles entries := by
  rw [reconcileManifest]
  simp only [bind_unit_ok_iff, checkAll_ok_iff, ensure_ok_iff, List.contains_eq_mem,
    decide_eq_true_eq, reconcileDeclared_iff functional]
  constructor
  · intro accepted file
    obtain ⟨listed, complete⟩ := accepted
    refine ⟨listed file, ?_⟩
    intro present
    obtain ⟨other, member, path⟩ := List.mem_map.mp (complete file present)
    rwa [← functional other (listed other member) file present path]
  · intro same
    refine ⟨fun declared member => (same declared).mp member, ?_⟩
    intro file present
    exact List.mem_map_of_mem ((same file).mpr present)

/-- The file is in the tree, with this size and this checksum. -/
def Tree.Lists (sha256 : List UInt8 → Digest) (root : Tree) (file : ManifestEntry) : Prop :=
  ∃ components bytes executable links, root.children.Holds components (.file bytes executable links) ∧
    file = ⟨relativePath components, bytes.length, digestText sha256 bytes⟩

theorem collectedFiles_iff {root : Tree} {bounds : CacheBounds} {entries : List SourceEntry}
    (collected : collectSource sha256 root bounds = .ok entries) (file : ManifestEntry) :
    file ∈ collectedFiles entries ↔ root.Lists sha256 file := by
  rw [mem_collectedFiles]
  simp only [collectSource_iff collected]
  constructor
  · intro ⟨executable, components, node, kind, holds, kindSame, same⟩
    cases node with
    | file bytes fileExecutable links =>
        obtain rfl := Option.some.inj kindSame
        obtain ⟨path, size, checksum⟩ := file
        simp only [SourceEntry.mk.injEq, EntryKind.file.injEq] at same
        obtain ⟨rfl, rfl, rfl, rfl⟩ := same
        exact ⟨components, bytes, _, links, holds, rfl⟩
    | directory foreign children =>
        obtain rfl := Option.some.inj kindSame
        exact absurd (congrArg SourceEntry.kind same) (by simp)
    | symlink => cases kindSame
    | special => cases kindSame
    | failing error => cases kindSame
  · intro ⟨components, bytes, executable, links, holds, same⟩
    rw [same]
    exact ⟨executable, components, _, _, holds, rfl, rfl⟩

theorem collectedFiles_functional {root : Tree} {bounds : CacheBounds} {entries : List SourceEntry}
    (collected : collectSource sha256 root bounds = .ok entries) :
    ∀ left ∈ collectedFiles entries, ∀ right ∈ collectedFiles entries,
      left.path = right.path → left = right := by
  intro left leftMember right rightMember same
  obtain ⟨leftExecutable, leftEntry⟩ := mem_collectedFiles.mp leftMember
  obtain ⟨rightExecutable, rightEntry⟩ := mem_collectedFiles.mp rightMember
  have equal := Found.unique ((collectSource_iff collected _).mp leftEntry)
    ((collectSource_iff collected _).mp rightEntry) same
  obtain ⟨leftPath, leftSize, leftChecksum⟩ := left
  obtain ⟨rightPath, rightSize, rightChecksum⟩ := right
  simp only [SourceEntry.mk.injEq, EntryKind.file.injEq] at equal
  obtain ⟨rfl, rfl, rfl, -⟩ := equal
  rfl

theorem manifest_accepted_iff {root : Tree} {bounds : CacheBounds} {entries : List SourceEntry}
    (collected : collectSource sha256 root bounds = .ok entries) (manifest : List ManifestEntry) :
    reconcileManifest entries manifest = .ok () ↔
      ∀ file, file ∈ manifest ↔ root.Lists sha256 file := by
  rw [reconcileManifest_iff (collectedFiles_functional collected)]
  simp only [collectedFiles_iff collected]

end Kvist.Galla.Generation
