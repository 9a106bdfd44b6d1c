import Kvist.Runtime.History
import Mathlib.Data.List.Nodup

/-!
# Histories with groups taken out

The groups of a complete history are disjoint and hold no system message. A history stays
complete when whole groups leave it, when an envelope enters it in front of a group, and when
its messages get other keys.
-/

set_option autoImplicit false

namespace Kvist.Runtime

variable {κ κ' : Type} {envelope : Option κ}

def keysOf (entries : Keyed κ) : List κ := entries.map (·.2)

theorem Answers.keys {pending : List (String × String)} {results : Keyed κ}
    (answers : Answers envelope pending results) :
    ∀ entry ∈ results, some entry.2 ≠ envelope ∧
      ∃ callId name content, entry.1 = .toolResult callId name content := by
  induction answers with
  | nil => simp
  | cons foreign _ _ ih =>
      intro entry member
      rcases List.mem_cons.mp member with rfl | later
      · exact ⟨foreign, _, _, _, rfl⟩
      · exact ih entry later

theorem Complete.keys_sublist {entries : Keyed κ} {groups : List (List κ)}
    (complete : Complete envelope entries groups) :
    groups.flatten.Sublist (keysOf entries) := by
  induction complete with
  | nil => exact List.Sublist.slnil
  | envelope _ _ ih => exact ih.cons _
  | system _ _ ih => exact ih.cons _
  | user _ _ ih => exact ih.cons_cons _
  | answer _ _ ih => exact ih.cons_cons _
  | batch _ _ _ _ _ ih =>
      simp only [List.flatten_cons, List.cons_append, keysOf, List.map_cons, List.map_append]
      exact ((List.Sublist.refl _).append ih).cons_cons _

theorem Complete.nonempty {entries : Keyed κ} {groups : List (List κ)}
    (complete : Complete envelope entries groups) : ∀ group ∈ groups, group ≠ [] := by
  induction complete with
  | nil => simp
  | envelope _ _ ih => exact ih
  | system _ _ ih => exact ih
  | user _ _ ih => simpa using ih
  | answer _ _ ih => simpa using ih
  | batch _ _ _ _ _ ih => simpa using ih

theorem Complete.inside {entries : Keyed κ} {groups : List (List κ)}
    (complete : Complete envelope entries groups) :
    ∀ key ∈ groups.flatten, ∃ message, (message, key) ∈ entries ∧ message.isSystem = false ∧
      some key ≠ envelope := by
  induction complete with
  | nil => simp
  | envelope _ _ ih =>
      intro key member
      obtain ⟨message, found, kind⟩ := ih key member
      exact ⟨message, List.mem_cons_of_mem _ found, kind⟩
  | system _ _ ih =>
      intro key member
      obtain ⟨message, found, kind⟩ := ih key member
      exact ⟨message, List.mem_cons_of_mem _ found, kind⟩
  | user foreign _ ih =>
      intro key member
      simp only [List.flatten_cons, List.cons_append, List.nil_append, List.mem_cons] at member
      rcases member with rfl | later
      · exact ⟨_, List.mem_cons_self .., rfl, foreign⟩
      · obtain ⟨message, found, kind⟩ := ih key later
        exact ⟨message, List.mem_cons_of_mem _ found, kind⟩
  | answer foreign _ ih =>
      intro key member
      simp only [List.flatten_cons, List.cons_append, List.nil_append, List.mem_cons] at member
      rcases member with rfl | later
      · exact ⟨_, List.mem_cons_self .., rfl, foreign⟩
      · obtain ⟨message, found, kind⟩ := ih key later
        exact ⟨message, List.mem_cons_of_mem _ found, kind⟩
  | batch foreign _ _ answers _ ih =>
      intro key member
      simp only [List.flatten_cons, List.cons_append, List.mem_cons, List.mem_append,
        List.mem_map] at member
      rcases member with rfl | ⟨result, found, rfl⟩ | later
      · exact ⟨_, List.mem_cons_self .., rfl, foreign⟩
      · obtain ⟨own, callId, name, content, same⟩ := answers.keys result found
        refine ⟨result.1, List.mem_cons_of_mem _ (List.mem_append_left _ found), ?_, own⟩
        rw [same]
        rfl
      · obtain ⟨message, found, kind⟩ := ih key later
        exact ⟨message, List.mem_cons_of_mem _ (List.mem_append_right _ found), kind⟩

theorem Complete.flatten_nodup {entries : Keyed κ} {groups : List (List κ)}
    (complete : Complete envelope entries groups) (distinct : (keysOf entries).Nodup) :
    groups.flatten.Nodup := distinct.sublist complete.keys_sublist

theorem Complete.system_outside {entries : Keyed κ} {groups : List (List κ)}
    (complete : Complete envelope entries groups) (distinct : (keysOf entries).Nodup)
    {entry : ModelMessage × κ} (member : entry ∈ entries) (system : entry.1.isSystem = true) :
    entry.2 ∉ groups.flatten := by
  intro inside
  obtain ⟨message, found, other, -⟩ := complete.inside entry.2 inside
  have same : entry = (message, entry.2) := List.inj_on_of_nodup_map distinct member found rfl
  rw [same] at system
  exact absurd (system.symm.trans other) (by decide)

/-! ## Taking groups out -/

theorem Answers.weaken {pending : List (String × String)} {results : Keyed κ}
    (answers : Answers envelope pending results) {other : Option κ}
    (foreign : ∀ entry ∈ results, some entry.2 ≠ other) : Answers other pending results := by
  induction answers with
  | nil => exact .nil
  | cons _ found _ ih =>
      exact .cons (foreign _ (List.mem_cons_self ..)) found
        (ih fun entry member => foreign entry (List.mem_cons_of_mem _ member))

/-- Each group stays or leaves as a whole, and the envelope leaves. -/
theorem Complete.filter {entries : Keyed κ} {groups : List (List κ)}
    (complete : Complete envelope entries groups) (keep : κ → Bool)
    (whole : ∀ group ∈ groups, (∀ key ∈ group, keep key = true) ∨ ∀ key ∈ group, keep key = false)
    (gone : ∀ key, some key = envelope → keep key = false) :
    Complete none (entries.filter (keep ·.2)) (groups.filter (·.all keep)) := by
  induction complete with
  | nil => exact .nil
  | envelope same _ ih =>
      rw [List.filter_cons_of_neg (by simp [gone _ same])]
      exact ih whole
  | @system text key rest groups _ _ ih =>
      rw [List.filter_cons]
      split
      · exact .system (by simp) (ih whole)
      · exact ih whole
  | @user text key rest groups _ _ ih =>
      have later := ih fun group member => whole group (List.mem_cons_of_mem _ member)
      cases kept : keep key with
      | true =>
          rw [List.filter_cons_of_pos (by simpa using kept),
            List.filter_cons_of_pos (by simpa using kept)]
          exact .user (by simp) later
      | false =>
          rw [List.filter_cons_of_neg (by simp [kept]), List.filter_cons_of_neg (by simp [kept])]
          exact later
  | @answer text key rest groups _ _ ih =>
      have later := ih fun group member => whole group (List.mem_cons_of_mem _ member)
      cases kept : keep key with
      | true =>
          rw [List.filter_cons_of_pos (by simpa using kept),
            List.filter_cons_of_pos (by simpa using kept)]
          exact .answer (by simp) later
      | false =>
          rw [List.filter_cons_of_neg (by simp [kept]), List.filter_cons_of_neg (by simp [kept])]
          exact later
  | @batch text toolIntents key results rest pending groups _ calls expected answers _ ih =>
      have later := ih fun group member => whole group (List.mem_cons_of_mem _ member)
      rcases whole _ (List.mem_cons_self ..) with all | none
      · have results' : results.filter (keep ·.2) = results := by
          rw [List.filter_eq_self]
          intro entry member
          exact all entry.2 (List.mem_cons_of_mem _ (List.mem_map.mpr ⟨entry, member, rfl⟩))
        rw [List.filter_cons_of_pos (by simpa using all key (List.mem_cons_self ..)),
          List.filter_append, results',
          List.filter_cons_of_pos (by simpa using List.all_eq_true.mpr all)]
        exact .batch (by simp) calls expected (answers.weaken (by simp)) later
      · have results' : results.filter (keep ·.2) = [] := by
          rw [List.filter_eq_nil_iff]
          intro entry member
          simp [none entry.2 (List.mem_cons_of_mem _ (List.mem_map.mpr ⟨entry, member, rfl⟩))]
        rw [List.filter_cons_of_neg (by simp [none key (List.mem_cons_self ..)]),
          List.filter_append, results', List.nil_append,
          List.filter_cons_of_neg (by simp [none key (List.mem_cons_self ..)])]
        exact later

/-! ## Other keys -/

theorem Answers.rename {pending : List (String × String)} {results : Keyed κ}
    (answers : Answers envelope pending results) (key : κ → κ') {other : Option κ'}
    (foreign : ∀ entry ∈ results, some (key entry.2) ≠ other) :
    Answers other pending (results.map fun entry => (entry.1, key entry.2)) := by
  induction answers with
  | nil => exact .nil
  | cons _ found _ ih =>
      exact .cons (foreign _ (List.mem_cons_self ..)) found
        (ih fun entry member => foreign entry (List.mem_cons_of_mem _ member))

theorem Complete.rename {entries : Keyed κ} {groups : List (List κ)}
    (complete : Complete envelope entries groups) (key : κ → κ') {other : Option κ'}
    (agrees : ∀ entry ∈ entries, some entry.2 = envelope ↔ some (key entry.2) = other) :
    Complete other (entries.map fun entry => (entry.1, key entry.2))
      (groups.map (List.map key)) := by
  induction complete with
  | nil => exact .nil
  | envelope same _ ih =>
      exact .envelope ((agrees _ (List.mem_cons_self ..)).mp same)
        (ih fun entry member => agrees entry (List.mem_cons_of_mem _ member))
  | system foreign _ ih =>
      exact .system (mt (agrees _ (List.mem_cons_self ..)).mpr foreign)
        (ih fun entry member => agrees entry (List.mem_cons_of_mem _ member))
  | user foreign _ ih =>
      exact .user (mt (agrees _ (List.mem_cons_self ..)).mpr foreign)
        (ih fun entry member => agrees entry (List.mem_cons_of_mem _ member))
  | answer foreign _ ih =>
      exact .answer (mt (agrees _ (List.mem_cons_self ..)).mpr foreign)
        (ih fun entry member => agrees entry (List.mem_cons_of_mem _ member))
  | @batch text toolIntents own results rest pending groups foreign calls expected answers _ ih =>
      have renamed := answers.rename key fun entry member =>
        mt (agrees entry (List.mem_cons_of_mem _ (List.mem_append_left _ member))).mpr
          (answers.keys entry member).1
      have later := ih fun entry member =>
        agrees entry (List.mem_cons_of_mem _ (List.mem_append_right _ member))
      rw [List.map_cons, List.map_append, List.map_cons, List.map_cons, List.map_map]
      have keys : results.map (key ∘ (·.2)) =
          (results.map fun entry => (entry.1, key entry.2)).map (·.2) := by
        simp [Function.comp_def]
      rw [keys]
      exact .batch (mt (agrees _ (List.mem_cons_self ..)).mpr foreign) calls expected renamed later

/-- A history without an envelope is read the same way under an envelope that is not in it. -/
theorem Complete.foreign {entries : Keyed κ} {groups : List (List κ)}
    (complete : Complete none entries groups) {other : Option κ}
    (absent : ∀ entry ∈ entries, some entry.2 ≠ other) : Complete other entries groups := by
  have agrees : ∀ entry ∈ entries, some entry.2 = (none : Option κ) ↔ some (id entry.2) = other := by
    intro entry member
    constructor
    · intro impossible
      cases impossible
    · intro same
      exact absurd same (absent entry member)
  simpa using complete.rename id agrees

/-- An envelope between the leading systems and the rest is left out of the groups. -/
theorem Complete.insert {front back : Keyed κ} {groups : List (List κ)}
    (complete : Complete none (front ++ back) groups) (message : ModelMessage) (key : κ)
    (systems : ∀ entry ∈ front, entry.1.isSystem = true)
    (fresh : key ∉ keysOf (front ++ back)) :
    Complete (some key) (front ++ (message, key) :: back) groups := by
  induction front with
  | nil =>
      refine .envelope rfl (complete.foreign fun entry member same => fresh ?_)
      exact List.mem_map.mpr ⟨entry, member, Option.some.inj same⟩
  | cons entry front ih =>
      obtain ⟨first, own⟩ := entry
      simp only [List.cons_append, keysOf, List.map_cons, List.mem_cons, not_or] at fresh complete
      have system := systems _ (List.mem_cons_self ..)
      cases first with
      | system text =>
          cases complete with
          | envelope impossible => cases impossible
          | system _ rest =>
              refine .system (fun same => fresh.1 (Option.some.inj same).symm) ?_
              exact ih rest (fun other member => systems other (List.mem_cons_of_mem _ member))
                fresh.2
      | user => cases system
      | assistant => cases system
      | toolResult => cases system

end Kvist.Runtime
