import Kvist.Repair.Queue

/-!
# The recovery of fragments

What `recover_fragments` does to a text that does not load, in one inversion law: it refuses the
text or finds a frame, which gives it the fragments.
-/

set_option autoImplicit false

namespace Kvist.Repair

open Yaml Text Queue

variable {fromStr : String → Except String Value} {contents : String}

/-- The header and the indentation under which the entries of a text are recovered. -/
structure Frame (fromStr : String → Except String Value) (contents : String) where
  boundary : Nat
  header : List (Value × Value)
  indent : Nat
  found : (lines contents.toList).findIdx? isTasksHeader = some boundary
  loaded : fromStr (String.ofList (joinLines ((lines contents.toList).take boundary))) =
    .ok (.mapping header)
  version : hasSchemaVersion (.mapping header) = true
  smallest :
    (((lines contents.toList).drop (boundary + 1)).filterMap entryIndent).min? = some indent

def Frame.fragments (frame : Frame fromStr contents) : List (List (List Char)) :=
  Repair.fragments frame.indent ((lines contents.toList).drop (frame.boundary + 1))

/-- The entries of the fragments that load as a single item. -/
def Frame.entries (frame : Frame fromStr contents) : List Value :=
  (frame.fragments.zipIdx.map (recoverFragment fromStr)).flatMap (·.1)

def Frame.document (frame : Frame fromStr contents) : Value :=
  .mapping (insertField "tasks" (.sequence frame.entries) frame.header)

/-- The guard passes over every line. -/
def Unguarded (fromStr : String → Except String Value) (contents : String) : Prop :=
  ∀ line ∈ lines contents.toList, scanLine fromStr line = .ok ()

theorem mem_recoverFragment {fragment : List (List Char)} {number : Nat} {entry : Value} :
    entry ∈ (recoverFragment fromStr (fragment, number)).1 ↔
      fragmentEntries fromStr fragment = .ok [entry] := by
  unfold recoverFragment
  dsimp only
  split
  · next value single => simp [single, eq_comm]
  · next several notSingle _ =>
      constructor
      · intro member
        cases member
      · intro single
        rename_i read
        rw [single] at read
        cases read
        exact absurd rfl (notSingle entry)
  · next error failed => simp [failed]

theorem Frame.mem_entries (frame : Frame fromStr contents) (entry : Value) :
    entry ∈ frame.entries ↔
      ∃ fragment ∈ frame.fragments, fragmentEntries fromStr fragment = .ok [entry] := by
  unfold Frame.entries
  simp only [List.mem_flatMap, List.mem_map]
  constructor
  · intro recovered
    obtain ⟨_, ⟨⟨fragment, number⟩, member, rfl⟩, present⟩ := recovered
    exact ⟨fragment, (List.mem_zipIdx' member).2 ▸ List.getElem_mem _,
      mem_recoverFragment.mp present⟩
  · intro single
    obtain ⟨fragment, member, single⟩ := single
    obtain ⟨number, position⟩ := List.getElem?_of_mem member
    exact ⟨_, ⟨(fragment, number), List.mk_mem_zipIdx_iff_getElem?.mpr position, rfl⟩,
      mem_recoverFragment.mpr single⟩

theorem Frame.fragment_infix (frame : Frame fromStr contents) {fragment : List (List Char)}
    (member : fragment ∈ frame.fragments) : fragment <:+: lines contents.toList := by
  unfold Frame.fragments Repair.fragments at member
  obtain ⟨entry, _, rfl⟩ := List.mem_map.mp member
  exact ((List.drop_suffix _ _).isInfix.trans (List.take_prefix _ _).isInfix).trans
    (List.drop_suffix _ _).isInfix

theorem Frame.get_tasks (frame : Frame fromStr contents) :
    frame.document.get "tasks" = some (.sequence frame.entries) := getField_insertField _ _ _

theorem Frame.document_version (frame : Frame fromStr contents) :
    hasSchemaVersion frame.document = true := by
  have kept : frame.document.get "schema_version" =
      (Value.mapping frame.header).get "schema_version" :=
    getField_insertField_of_ne (by decide) _ _
  have version := frame.version
  unfold hasSchemaVersion Value.index at version ⊢
  rwa [kept]

theorem recoverFragments_ok {value : Value} {reasons : List Reason}
    (recovered : recoverFragments fromStr contents = .ok (value, reasons)) :
    Unguarded fromStr contents ∧ ∃ frame : Frame fromStr contents, value = frame.document := by
  unfold recoverFragments at recovered
  obtain ⟨scanned, recovered⟩ := bind_unit_ok_iff.mp recovered
  refine ⟨checkAll_ok_iff.mp scanned, ?_⟩
  split at recovered
  · cases recovered
  · next boundary found =>
      split at recovered
      · cases recovered
      · next header loaded =>
          obtain ⟨version, recovered⟩ := bind_unit_ok_iff.mp recovered
          cases smallest :
              (((lines contents.toList).drop (boundary + 1)).filterMap entryIndent).min? with
          | none =>
              simp only [smallest] at recovered
              cases recovered
          | some indent =>
              simp only [smallest] at recovered
              cases header with
              | plain _ _ | quoted _ | sequence _ => cases recovered
              | mapping header =>
                  obtain ⟨rfl, rfl⟩ := Prod.mk.inj (Except.ok.inj recovered)
                  exact ⟨⟨boundary, header, indent, found, loaded, ensure_ok_iff.mp version,
                    smallest⟩, rfl⟩

/-- Without a guarded line, a frame is all that the recovery needs. -/
theorem recoverFragments_frame (frame : Frame fromStr contents)
    (unguarded : Unguarded fromStr contents) :
    ∃ reasons, recoverFragments fromStr contents = .ok (frame.document, reasons) := by
  have scanned : checkAll (scanLine fromStr) (lines contents.toList) = .ok () :=
    checkAll_ok_iff.mpr unguarded
  unfold recoverFragments
  simp only [scanned, ok_bind, frame.found, frame.loaded, frame.version, ensure_true,
    frame.smallest, Value.entries?]
  exact ⟨_, rfl⟩

end Kvist.Repair
