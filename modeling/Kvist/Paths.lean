import Kvist.Text
import Kvist.Segments

/-!
# Absolute paths as lists of components

A path is its components, each behind a slash. One path is inside another exactly if it has the
other's components first, and so paths that contain a common path contain one another.
-/

set_option autoImplicit false

namespace Kvist.Paths

/-- The components, each behind a slash. -/
def render (components : List (List Char)) : List Char :=
  components.flatMap fun component => '/' :: component

/-- The components that are not empty. -/
def split (path : List Char) : List (List Char) :=
  (path.splitOn '/').filter fun component => !component.isEmpty

/-- No component is empty, and none holds a slash. -/
def Proper (components : List (List Char)) : Prop :=
  ∀ component ∈ components, component ≠ [] ∧ '/' ∉ component

@[simp] theorem render_nil : render [] = [] := rfl

@[simp] theorem render_cons (component : List Char) (rest : List (List Char)) :
    render (component :: rest) = '/' :: (component ++ render rest) := rfl

theorem render_append (front back : List (List Char)) :
    render (front ++ back) = render front ++ render back :=
  List.flatMap_append

theorem render_push_empty (components : List (List Char)) :
    render (components ++ [[]]) = render components ++ ['/'] := by
  rw [render_append]
  rfl

theorem Proper.tail {component : List Char} {rest : List (List Char)}
    (proper : Proper (component :: rest)) : Proper rest :=
  fun other member => proper other (List.mem_cons_of_mem _ member)

theorem splitOn_component {component : List Char} {rest : List (List Char)}
    (clear : ∀ other ∈ component :: rest, '/' ∉ other) :
    (component ++ render rest).splitOn '/' = component :: rest := by
  induction rest generalizing component with
  | nil =>
      rw [render_nil, List.append_nil]
      exact List.splitOn_eq_singleton (clear component List.mem_cons_self)
  | cons next rest ih =>
      rw [render_cons, List.splitOn_append_cons_self_of_not_mem
        (clear component List.mem_cons_self)]
      rw [ih fun other member => clear other (List.mem_cons_of_mem _ member)]

theorem splitOn_render {components : List (List Char)}
    (clear : ∀ component ∈ components, '/' ∉ component) :
    (render components).splitOn '/' = [] :: components := by
  have whole := @splitOn_component [] components (by
    intro other member
    rcases List.mem_cons.mp member with rfl | inside
    · exact List.not_mem_nil
    · exact clear other inside)
  exact whole

theorem split_render {components : List (List Char)} (proper : Proper components) :
    split (render components) = components := by
  rw [split, splitOn_render fun component member => (proper component member).2]
  rw [List.filter_cons, if_neg (by simp)]
  apply List.filter_eq_self.mpr
  intro component member
  simpa using (proper component member).1

/-- Of what stands behind slashes, the empty components are dropped. -/
theorem split_render_clear {components : List (List Char)}
    (clear : ∀ component ∈ components, '/' ∉ component) :
    split (render components) = components.filter fun component => !component.isEmpty := by
  rw [split, splitOn_render clear, List.filter_cons, if_neg (by simp)]

theorem split_render_slash {components : List (List Char)} (proper : Proper components) :
    split (render components ++ ['/']) = components := by
  rw [← render_push_empty, split, splitOn_render]
  · rw [List.filter_cons, if_neg (by simp), List.filter_append]
    rw [List.filter_eq_self.mpr fun component member => by simpa using (proper component member).1]
    simp
  · intro component member
    rcases List.mem_append.mp member with inside | last
    · exact (proper component inside).2
    · rw [List.mem_singleton.mp last]
      exact List.not_mem_nil

/-- What stands between slashes has none. -/
theorem clear_splitOn (text : List Char) : ∀ component ∈ text.splitOn '/', '/' ∉ component := by
  induction text with
  | nil => simp
  | cons character rest ih =>
      rw [List.splitOn_cons_eq_if_modifyHead]
      split
      · intro component member
        rcases List.mem_cons.mp member with rfl | inside
        · exact List.not_mem_nil
        · exact ih component inside
      · rename_i other
        obtain ⟨first, others, parts⟩ := List.exists_cons_of_ne_nil (List.splitOn_ne_nil '/' rest)
        rw [parts] at ih ⊢
        intro component member
        rcases List.mem_cons.mp member with rfl | inside
        · intro slash
          rcases List.mem_cons.mp slash with same | later
          · exact other (beq_iff_eq.mpr same.symm)
          · exact ih first List.mem_cons_self later
        · exact ih component (List.mem_cons_of_mem _ inside)

theorem split_proper (path : List Char) : Proper (split path) := by
  intro component member
  rw [split, List.mem_filter] at member
  exact ⟨by simpa using member.2, clear_splitOn path component member.1⟩

theorem render_eq_join {components : List (List Char)} (nonempty : components ≠ []) :
    render components = '/' :: ['/'].intercalate components := by
  induction components with
  | nil => exact absurd rfl nonempty
  | cons component others ih =>
      cases others with
      | nil => simp
      | cons next others =>
          rw [render_cons, ih (by simp)]
          simp [List.intercalate_cons_cons]

theorem split_join {components : List (List Char)} (proper : Proper components)
    (nonempty : components ≠ []) : split (['/'].intercalate components) = components := by
  have whole := splitOn_render fun component member => (proper component member).2
  rw [render_eq_join nonempty, List.splitOn_cons_eq_if_modifyHead, if_pos (by decide)] at whole
  rw [split, (List.cons.inj whole).2]
  apply List.filter_eq_self.mpr
  intro component member
  simpa using (proper component member).1

/-- An absolute text is what stands between its slashes, each behind a slash. -/
theorem render_splitOn (rest : List Char) : render (rest.splitOn '/') = '/' :: rest := by
  rw [render_eq_join (List.splitOn_ne_nil '/' rest), List.intercalate_splitOn]

theorem split_render_child {components : List (List Char)} (proper : Proper components)
    (rest : List Char) : split (render components ++ '/' :: rest) = components ++ split rest := by
  rw [← render_splitOn, ← render_append, split_render_clear, List.filter_append]
  · rw [List.filter_eq_self.mpr fun component member => by simpa using (proper component member).1]
    rfl
  · intro component member
    rcases List.mem_append.mp member with inside | below
    · exact (proper component inside).2
    · exact clear_splitOn rest component below

/-- A rendered path does not end with a slash. -/
theorem getLast?_render {components : List (List Char)} (proper : Proper components) :
    (render components).getLast? ≠ some '/' := by
  intro ends
  rcases List.eq_nil_or_concat components with rfl | ⟨front, last, rfl⟩
  · cases ends
  · have properties := proper last (by simp)
    have single : render [last] = '/' :: last := by simp
    rw [List.concat_eq_append, render_append, single, List.getLast?_append, List.getLast?_cons,
      List.getLast?_eq_some_getLast properties.1] at ends
    simp only [Option.getD_some, Option.some_or, Option.some.injEq] at ends
    exact properties.2 (ends ▸ List.getLast_mem properties.1)

/-- Containment of paths is containment of components. -/
theorem render_prefix_iff {front back : List (List Char)} (frontProper : Proper front)
    (backProper : Proper back) :
    render front ++ ['/'] <+: render back ++ ['/'] ↔ front <+: back := by
  induction front generalizing back with
  | nil =>
      refine ⟨fun _ => List.nil_prefix, fun _ => ?_⟩
      cases back with
      | nil => exact List.prefix_rfl
      | cons component rest =>
          rw [render_nil, render_cons]
          exact ⟨_, rfl⟩
  | cons component rest ih =>
      cases back with
      | nil =>
          constructor
          · intro begins
            have longer := begins.length_le
            have nonempty := List.length_pos_iff.mpr (frontProper component List.mem_cons_self).1
            simp only [render_cons, render_nil, List.length_append, List.length_cons,
              List.length_nil] at longer
            omega
          · intro begins
            simp at begins
      | cons other others =>
          have head : ∃ tail, render rest ++ ['/'] = '/' :: tail := by
            cases rest with
            | nil => exact ⟨[], rfl⟩
            | cons => exact ⟨_, rfl⟩
          have otherHead : ∃ tail, render others ++ ['/'] = '/' :: tail := by
            cases others with
            | nil => exact ⟨[], rfl⟩
            | cons => exact ⟨_, rfl⟩
          have step := ih frontProper.tail backProper.tail
          obtain ⟨tail, same⟩ := head
          obtain ⟨otherTail, otherSame⟩ := otherHead
          rw [render_cons, render_cons, List.cons_append, List.cons_append, List.append_assoc,
            List.append_assoc, same, otherSame, List.cons_prefix_cons, List.cons_prefix_cons]
          rw [same, otherSame] at step
          constructor
          · intro begins
            obtain ⟨-, more, whole⟩ := begins
            rw [List.append_assoc, List.cons_append] at whole
            obtain ⟨rfl, rfl⟩ := Segments.first_stop (frontProper component List.mem_cons_self).2
              (backProper other List.mem_cons_self).2 whole
            exact ⟨rfl, step.mp ⟨more, rfl⟩⟩
          · intro ⟨same, begins⟩
            obtain ⟨more, whole⟩ := step.mpr begins
            refine ⟨rfl, more, ?_⟩
            rw [same, List.append_assoc, whole]

end Kvist.Paths
