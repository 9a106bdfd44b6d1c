import Mathlib.Data.Finset.Card
import Mathlib.Data.Finset.Range
import Mathlib.Logic.Relation
import Kvist.Outcome

/-!
# Depth-first cycle check

The three-mark depth-first walk over a graph whose vertices are numbered and whose edges
are labels that are resolved while walking. On a closed graph the walk from every vertex
succeeds exactly when no vertex lies on a cycle, and on any graph at all it ends.
-/

set_option autoImplicit false

namespace Kvist.Graph

inductive Mark where
  | unvisited
  | visiting
  | visited
  deriving DecidableEq, Repr

/-- The labels on the edges out of a vertex, and the vertex a label stands for. -/
structure Labelled (κ : Type) where
  labels : Nat → Option (List κ)
  target : κ → Option Nat

/-- The three ways a walk can fail. -/
structure Faults (ε : Type) where
  cycle : Nat → ε
  missing : ε
  exhausted : ε

variable {κ ε : Type}

def Labelled.Edge (graph : Labelled κ) (source destination : Nat) : Prop :=
  ∃ labels, graph.labels source = some labels ∧
    ∃ label ∈ labels, graph.target label = some destination

/-- The vertices are the numbers below `size`, and every label leads to one of them. -/
structure Labelled.Closed (graph : Labelled κ) (size : Nat) : Prop where
  defined : ∀ vertex, (graph.labels vertex).isSome = true ↔ vertex < size
  resolved : ∀ vertex labels, graph.labels vertex = some labels →
    ∀ label ∈ labels, ∃ next < size, graph.target label = some next

def Labelled.Acyclic (graph : Labelled κ) : Prop :=
  ∀ vertex, ¬ Relation.TransGen graph.Edge vertex vertex

/-- Follow one edge with the walk of a vertex. -/
def walkLabel (graph : Labelled κ) (faults : Faults ε)
    (walk : Nat → List Mark → Except ε (List Mark)) (marks : List Mark) (label : κ) :
    Except ε (List Mark) :=
  match graph.target label with
  | some next => walk next marks
  | none => .error faults.missing

/-- One vertex of the walk; `fuel` bounds the depth. -/
def visit (graph : Labelled κ) (faults : Faults ε) :
    Nat → Nat → List Mark → Except ε (List Mark)
  | 0, _, _ => .error faults.exhausted
  | fuel + 1, vertex, marks =>
      match marks[vertex]?, graph.labels vertex with
      | some .visited, _ => .ok marks
      | some .visiting, some _ => .error (faults.cycle vertex)
      | some .unvisited, some labels => do
          let marks ← labels.foldlM (walkLabel graph faults (visit graph faults fuel))
            (marks.set vertex .visiting)
          .ok (marks.set vertex .visited)
      | _, _ => .error faults.missing

/-- The walk from every vertex in turn. -/
def visitAll (graph : Labelled κ) (faults : Faults ε) (size : Nat) :
    Except ε (List Mark) :=
  (List.range size).foldlM
    (fun marks vertex => visit graph faults (size + 1) vertex marks)
    (List.replicate size Mark.unvisited)

/-! ## What a walk leaves unchanged -/

/-- A walk keeps the vertices under way and never forgets a visited one. -/
structure Extends (before after : List Mark) : Prop where
  length : after.length = before.length
  visiting : ∀ index : Nat,
    after[index]? = some Mark.visiting ↔ before[index]? = some Mark.visiting
  visited : ∀ index : Nat, before[index]? = some Mark.visited → after[index]? = some Mark.visited

theorem Extends.refl (marks : List Mark) : Extends marks marks :=
  ⟨rfl, fun _ => Iff.rfl, fun _ same => same⟩

theorem Extends.trans {first second third : List Mark} (left : Extends first second)
    (right : Extends second third) : Extends first third :=
  ⟨right.length.trans left.length, fun index => (right.visiting index).trans (left.visiting index),
    fun index present => right.visited index (left.visited index present)⟩

private theorem Extends.finish {marks walked : List Mark} {vertex : Nat}
    (fresh : marks[vertex]? = some .unvisited)
    (walk : Extends (marks.set vertex .visiting) walked) :
    Extends marks (walked.set vertex .visited) := by
  have bound : vertex < marks.length := (List.getElem?_eq_some_iff.mp fresh).1
  refine ⟨by simpa using walk.length, fun index => ?_, fun index present => ?_⟩
  · by_cases same : vertex = index
    · subst same
      have inside : vertex < walked.length := by simpa [walk.length] using bound
      simp [List.getElem?_set_self inside, fresh]
    · rw [List.getElem?_set_ne same, walk.visiting index, List.getElem?_set_ne same]
  · by_cases same : vertex = index
    · subst same
      simp [fresh] at present
    · rw [List.getElem?_set_ne same]
      exact walk.visited index (by rwa [List.getElem?_set_ne same])

private theorem walkLabel_ok {graph : Labelled κ} {faults : Faults ε}
    {walk : Nat → List Mark → Except ε (List Mark)} {marks next : List Mark} {label : κ}
    (stepped : walkLabel graph faults walk marks label = .ok next) :
    ∃ target, graph.target label = some target ∧ walk target marks = .ok next := by
  unfold walkLabel at stepped
  cases resolved : graph.target label with
  | none =>
      rw [resolved] at stepped
      cases stepped
  | some target =>
      rw [resolved] at stepped
      exact ⟨target, rfl, stepped⟩

private theorem walkLabel_error {graph : Labelled κ} {faults : Faults ε}
    {walk : Nat → List Mark → Except ε (List Mark)} {marks : List Mark} {label : κ} {error : ε}
    (failed : walkLabel graph faults walk marks label = .error error) :
    (graph.target label = none ∧ error = faults.missing) ∨
      ∃ target, graph.target label = some target ∧ walk target marks = .error error := by
  unfold walkLabel at failed
  cases resolved : graph.target label with
  | none =>
      rw [resolved] at failed
      cases failed
      exact .inl ⟨rfl, rfl⟩
  | some target =>
      rw [resolved] at failed
      exact .inr ⟨target, rfl, failed⟩

theorem visit_succ_ok {graph : Labelled κ} {faults : Faults ε} {fuel vertex : Nat}
    {marks final : List Mark} (succeeded : visit graph faults (fuel + 1) vertex marks = .ok final) :
    (marks[vertex]? = some .visited ∧ final = marks) ∨
    (∃ labels walked, marks[vertex]? = some .unvisited ∧ graph.labels vertex = some labels ∧
      labels.foldlM (walkLabel graph faults (visit graph faults fuel))
        (marks.set vertex .visiting) = .ok walked ∧
      final = walked.set vertex .visited) := by
  rw [visit] at succeeded
  split at succeeded
  case h_1 present => exact .inl ⟨present, by simpa using succeeded.symm⟩
  case h_2 => cases succeeded
  case h_3 labels fresh found =>
      obtain ⟨walked, walk, finished⟩ := bind_ok_iff.mp succeeded
      exact .inr ⟨labels, walked, fresh, found, walk, by simpa using finished.symm⟩
  case h_4 => cases succeeded

theorem visit_extends {graph : Labelled κ} {faults : Faults ε} {fuel vertex : Nat}
    {marks final : List Mark} (succeeded : visit graph faults fuel vertex marks = .ok final) :
    Extends marks final := by
  induction fuel generalizing vertex marks final with
  | zero => cases succeeded
  | succ fuel ih =>
      rcases visit_succ_ok succeeded with ⟨_, rfl⟩ | ⟨labels, walked, fresh, _, walk, rfl⟩
      · exact .refl _
      · refine Extends.finish fresh (foldlM_ok_invariant
          (fun _ state => Extends (marks.set vertex .visiting) state) ?_ (.refl _) walk)
        intro _ label _ state next _ extended stepped
        obtain ⟨target, _, walked⟩ := walkLabel_ok stepped
        exact extended.trans (ih walked)

private theorem walkLabel_extends {graph : Labelled κ} {faults : Faults ε} {fuel : Nat}
    {labels : List κ} {start : List Mark} :
    ∀ label ∈ labels, ∀ state next : List Mark, Extends start state →
      walkLabel graph faults (visit graph faults fuel) state label = .ok next →
      Extends start next := by
  intro label _ state next extended stepped
  obtain ⟨target, _, walked⟩ := walkLabel_ok stepped
  exact extended.trans (visit_extends walked)

/-! ## A successful walk finds no cycle -/

/-- A finishing order, latest first: every edge leads to a vertex finished before. -/
inductive Settled (graph : Labelled κ) : List Nat → Prop where
  | nil : Settled graph []
  | cons {vertex : Nat} {finished : List Nat} (fresh : vertex ∉ finished)
      (closed : ∀ next, graph.Edge vertex next → next ∈ finished)
      (rest : Settled graph finished) : Settled graph (vertex :: finished)

theorem Settled.reachable {graph : Labelled κ} {finished : List Nat}
    (settled : Settled graph finished) {source destination : Nat} (member : source ∈ finished)
    (path : Relation.ReflTransGen graph.Edge source destination) : destination ∈ finished := by
  have step : ∀ left ∈ finished, ∀ right, graph.Edge left right → right ∈ finished := by
    clear path member
    induction settled with
    | nil => simp
    | cons _ closed _ ih =>
        intro left member right edge
        rcases List.mem_cons.mp member with rfl | member
        · exact List.mem_cons_of_mem _ (closed right edge)
        · exact List.mem_cons_of_mem _ (ih left member right edge)
  induction path with
  | refl => exact member
  | tail _ edge ih => exact step _ ih _ edge

theorem Settled.acyclic {graph : Labelled κ} {finished : List Nat}
    (settled : Settled graph finished) {vertex : Nat} (member : vertex ∈ finished) :
    ¬ Relation.TransGen graph.Edge vertex vertex := by
  induction settled with
  | nil => simp at member
  | cons fresh closed rest ih =>
      rcases List.mem_cons.mp member with rfl | member
      · intro cycle
        obtain ⟨next, edge, path⟩ := Relation.TransGen.head'_iff.mp cycle
        exact fresh (rest.reachable (closed next edge) path)
      · exact ih member

/-- The visited vertices, in the order in which the walk finished them. -/
def Finished (graph : Labelled κ) (marks : List Mark) : Prop :=
  ∃ finished, Settled graph finished ∧
    ∀ index, marks[index]? = some .visited ↔ index ∈ finished

private theorem Finished.start {graph : Labelled κ} {marks : List Mark} {vertex : Nat}
    (done : Finished graph marks) (fresh : marks[vertex]? = some .unvisited) :
    Finished graph (marks.set vertex .visiting) := by
  obtain ⟨finished, settled, members⟩ := done
  refine ⟨finished, settled, fun index => ?_⟩
  by_cases same : vertex = index
  · subst same
    have bound : vertex < marks.length := (List.getElem?_eq_some_iff.mp fresh).1
    rw [List.getElem?_set_self bound, ← members vertex, fresh]
    simp
  · rw [List.getElem?_set_ne same, members index]

private theorem Finished.finish {graph : Labelled κ} {marks : List Mark} {vertex : Nat}
    (done : Finished graph marks) (underway : marks[vertex]? = some .visiting)
    (closed : ∀ next, graph.Edge vertex next → marks[next]? = some .visited) :
    Finished graph (marks.set vertex .visited) := by
  obtain ⟨finished, settled, members⟩ := done
  have bound : vertex < marks.length := (List.getElem?_eq_some_iff.mp underway).1
  refine ⟨vertex :: finished, .cons ?_ (fun next edge => (members next).mp (closed next edge))
    settled, fun index => ?_⟩
  · rw [← members vertex, underway]
    simp
  · by_cases same : vertex = index
    · subst same
      simp [List.getElem?_set_self bound]
    · rw [List.getElem?_set_ne same, members index, List.mem_cons]
      simp [Ne.symm same]

theorem visit_finished {graph : Labelled κ} {faults : Faults ε} {fuel vertex : Nat}
    {marks final : List Mark} (done : Finished graph marks)
    (succeeded : visit graph faults fuel vertex marks = .ok final) :
    Finished graph final ∧ final[vertex]? = some .visited := by
  induction fuel generalizing vertex marks final with
  | zero => cases succeeded
  | succ fuel ih =>
      rcases visit_succ_ok succeeded with ⟨present, rfl⟩ | ⟨labels, walked, fresh, found, walk, rfl⟩
      · exact ⟨done, present⟩
      have bound : vertex < marks.length := (List.getElem?_eq_some_iff.mp fresh).1
      -- After the fold the vertex is still under way and every target is visited.
      have walkedState : Extends (marks.set vertex .visiting) walked ∧ Finished graph walked ∧
          ∀ label ∈ labels, ∀ next, graph.target label = some next →
            walked[next]? = some .visited := by
        refine foldlM_ok_invariant
          (fun consumed state => Extends (marks.set vertex .visiting) state ∧
            Finished graph state ∧ ∀ label ∈ consumed, ∀ next,
              graph.target label = some next → state[next]? = some .visited)
          ?_ ⟨.refl _, done.start fresh, by simp⟩ walk
        rintro consumed label _ state next _ ⟨extended, finished, targets⟩ stepped
        obtain ⟨target, resolved, walkedTarget⟩ := walkLabel_ok stepped
        have further := visit_extends walkedTarget
        obtain ⟨finishedNext, visited⟩ := ih finished walkedTarget
        refine ⟨extended.trans further, finishedNext, fun other member reached reaches => ?_⟩
        rcases List.mem_append.mp member with member | member
        · exact further.visited _ (targets other member reached reaches)
        · obtain rfl := List.mem_singleton.mp member
          rw [resolved] at reaches
          cases reaches
          exact visited
      obtain ⟨extended, finished, targets⟩ := walkedState
      have underway : walked[vertex]? = some .visiting :=
        (extended.visiting vertex).mpr (List.getElem?_set_self bound)
      refine ⟨finished.finish underway ?_, ?_⟩
      · rintro next ⟨others, foundOthers, label, member, resolved⟩
        rw [found] at foundOthers
        cases foundOthers
        exact targets label member next resolved
      · exact List.getElem?_set_self (by simpa [extended.length] using bound)

/-! ## The walk ends -/

/-- The vertices not yet reached. -/
def unreached (marks : List Mark) : Finset Nat :=
  (Finset.range marks.length).filter fun index => marks[index]? = some .unvisited

private theorem mem_unreached {marks : List Mark} {index : Nat} :
    index ∈ unreached marks ↔ marks[index]? = some .unvisited := by
  simp only [unreached, Finset.mem_filter, Finset.mem_range, and_iff_right_iff_imp]
  intro present
  exact (List.getElem?_eq_some_iff.mp present).1

private theorem Extends.unreached_subset {before after : List Mark}
    (extended : Extends before after) : unreached after ⊆ unreached before := by
  intro index member
  rw [mem_unreached] at member ⊢
  have bound : index < before.length := by
    rw [← extended.length]
    exact (List.getElem?_eq_some_iff.mp member).1
  cases present : before[index]? with
  | none => simp at present; omega
  | some mark =>
      cases mark with
      | unvisited => rfl
      | visiting =>
          rw [← extended.visiting, member] at present
          cases present
      | visited =>
          have stays := extended.visited index present
          rw [member] at stays
          cases stays

private theorem unreached_start {marks : List Mark} {vertex : Nat}
    (fresh : marks[vertex]? = some .unvisited) :
    (unreached (marks.set vertex .visiting)).card < (unreached marks).card := by
  have bound : vertex < marks.length := (List.getElem?_eq_some_iff.mp fresh).1
  refine Finset.card_lt_card ((Finset.ssubset_iff_of_subset ?_).mpr
    ⟨vertex, mem_unreached.mpr fresh, ?_⟩)
  · intro index member
    rw [mem_unreached] at member ⊢
    by_cases same : vertex = index
    · subst same
      rw [List.getElem?_set_self bound] at member
      cases member
    · rwa [List.getElem?_set_ne same] at member
  · rw [mem_unreached, List.getElem?_set_self bound]
    simp

/-- On any graph, cyclic or with labels that lead nowhere, the walk ends within the bound. -/
theorem visit_not_exhausted {graph : Labelled κ} {faults : Faults ε}
    (cycleOther : ∀ vertex, faults.cycle vertex ≠ faults.exhausted)
    (missingOther : faults.missing ≠ faults.exhausted) {fuel vertex : Nat} {marks : List Mark}
    (enough : (unreached marks).card < fuel) :
    visit graph faults fuel vertex marks ≠ .error faults.exhausted := by
  induction fuel generalizing vertex marks with
  | zero => omega
  | succ fuel ih =>
      intro failed
      rw [visit] at failed
      split at failed
      case h_1 => cases failed
      case h_2 => exact cycleOther _ (by simpa using failed)
      case h_4 => exact missingOther (by simpa using failed)
      case h_3 labels fresh found =>
          cases walk : labels.foldlM (walkLabel graph faults (visit graph faults fuel))
              (marks.set vertex .visiting) with
          | ok walked => rw [walk, ok_bind] at failed; cases failed
          | error error =>
              rw [walk, error_bind] at failed
              cases failed
              obtain ⟨label, _, state, extended, failure⟩ := foldlM_error_invariant
                (Extends (marks.set vertex .visiting)) walkLabel_extends (.refl _) walk
              have fewer : (unreached state).card < fuel := by
                have := Finset.card_le_card extended.unreached_subset
                have := unreached_start fresh
                omega
              rcases walkLabel_error failure with ⟨_, same⟩ | ⟨target, _, failed⟩
              · exact missingOther same.symm
              · exact ih fewer failed

theorem visit_error {graph : Labelled κ} {faults : Faults ε} {size : Nat}
    (closed : graph.Closed size) {fuel vertex : Nat} {marks : List Mark} {error : ε}
    (bound : vertex < size) (length : marks.length = size)
    (failed : visit graph faults fuel vertex marks = .error error) :
    error = faults.exhausted ∨ ∃ position, error = faults.cycle position := by
  induction fuel generalizing vertex marks with
  | zero => cases failed; exact .inl rfl
  | succ fuel ih =>
      obtain ⟨labels, found⟩ := Option.isSome_iff_exists.mp ((closed.defined vertex).mpr bound)
      obtain ⟨mark, present⟩ : ∃ mark, marks[vertex]? = some mark :=
        ⟨_, List.getElem?_eq_getElem (by omega)⟩
      rw [visit, present, found] at failed
      cases mark with
      | visited => cases failed
      | visiting => cases failed; exact .inr ⟨vertex, rfl⟩
      | unvisited =>
          simp only at failed
          cases walk : labels.foldlM (walkLabel graph faults (visit graph faults fuel))
              (marks.set vertex .visiting) with
          | ok walked => rw [walk] at failed; cases failed
          | error other =>
              rw [walk] at failed
              cases failed
              obtain ⟨label, member, state, same, failure⟩ := foldlM_error_invariant
                (fun state : List Mark => state.length = size) (by
                  intro label _ state next same stepped
                  obtain ⟨target, _, walked⟩ := walkLabel_ok stepped
                  exact (visit_extends walked).length.trans same) (by simpa using length) walk
              obtain ⟨next, nextBound, resolved⟩ := closed.resolved vertex labels found label member
              rw [walkLabel, resolved] at failure
              exact ih nextBound same failure

/-! ## On an acyclic graph the walk succeeds -/

theorem visit_succeeds {graph : Labelled κ} {faults : Faults ε} {size : Nat}
    (closed : graph.Closed size) (acyclic : graph.Acyclic) {fuel vertex : Nat}
    {marks : List Mark} (bound : vertex < size) (length : marks.length = size)
    (underway : ∀ index, marks[index]? = some .visiting →
      Relation.TransGen graph.Edge index vertex)
    (enough : (unreached marks).card < fuel) :
    ∃ final, visit graph faults fuel vertex marks = .ok final := by
  induction fuel generalizing vertex marks with
  | zero => omega
  | succ fuel ih =>
      obtain ⟨labels, found⟩ := Option.isSome_iff_exists.mp ((closed.defined vertex).mpr bound)
      obtain ⟨mark, present⟩ : ∃ mark, marks[vertex]? = some mark :=
        ⟨_, List.getElem?_eq_getElem (by omega)⟩
      rw [visit, present, found]
      cases mark with
      | visited => exact ⟨marks, rfl⟩
      | visiting => exact absurd (underway vertex present) (acyclic vertex)
      | unvisited =>
          simp only
          cases walk : labels.foldlM (walkLabel graph faults (visit graph faults fuel))
              (marks.set vertex .visiting) with
          | ok walked => exact ⟨_, rfl⟩
          | error error =>
              obtain ⟨label, member, state, extended, failure⟩ := foldlM_error_invariant
                (Extends (marks.set vertex .visiting)) walkLabel_extends (.refl _) walk
              obtain ⟨next, nextBound, resolved⟩ := closed.resolved vertex labels found label member
              have edge : graph.Edge vertex next := ⟨labels, found, label, member, resolved⟩
              have fewer : (unreached state).card < fuel := by
                have := Finset.card_le_card extended.unreached_subset
                have := unreached_start present
                omega
              have below : ∀ index, state[index]? = some .visiting →
                  Relation.TransGen graph.Edge index next := by
                intro index visiting
                rw [extended.visiting] at visiting
                by_cases same : vertex = index
                · subst same
                  exact .single edge
                · rw [List.getElem?_set_ne same] at visiting
                  exact (underway index visiting).tail edge
              obtain ⟨final, succeeded⟩ := ih nextBound
                (by rw [extended.length, List.length_set, length]) below fewer
              rw [walkLabel, resolved] at failure
              simp only [succeeded] at failure
              cases failure

/-! ## The walk from every vertex -/

theorem unreached_card_le (marks : List Mark) :
    (unreached marks).card ≤ marks.length := by
  have smaller : (unreached marks).card ≤ (Finset.range marks.length).card :=
    Finset.card_le_card (Finset.filter_subset _ _)
  rwa [Finset.card_range] at smaller

private theorem visitAll_marks {graph : Labelled κ} {faults : Faults ε} {size : Nat} :
    ∀ vertex ∈ List.range size, ∀ marks next : List Mark,
      Extends (List.replicate size Mark.unvisited) marks →
      visit graph faults (size + 1) vertex marks = .ok next →
      Extends (List.replicate size Mark.unvisited) next :=
  fun _ _ _ _ extended stepped => extended.trans (visit_extends stepped)

private theorem Extends.enough {size : Nat} {marks : List Mark}
    (extended : Extends (List.replicate size Mark.unvisited) marks) :
    (unreached marks).card < size + 1 := by
  have := unreached_card_le marks
  have := extended.length
  simp only [List.length_replicate] at this
  omega

theorem visitAll_not_exhausted {graph : Labelled κ} {faults : Faults ε} {size : Nat}
    (cycleOther : ∀ vertex, faults.cycle vertex ≠ faults.exhausted)
    (missingOther : faults.missing ≠ faults.exhausted) :
    visitAll graph faults size ≠ .error faults.exhausted := by
  intro failed
  obtain ⟨vertex, _, marks, extended, failure⟩ :=
    foldlM_error_invariant _ visitAll_marks (.refl _) failed
  exact visit_not_exhausted cycleOther missingOther extended.enough failure

theorem visitAll_error {graph : Labelled κ} {faults : Faults ε} {size : Nat} {error : ε}
    (closed : graph.Closed size) (failed : visitAll graph faults size = .error error) :
    error = faults.exhausted ∨ ∃ position, error = faults.cycle position := by
  obtain ⟨vertex, member, marks, extended, failure⟩ :=
    foldlM_error_invariant _ visitAll_marks (.refl _) failed
  exact visit_error closed (by simpa using member) (by simpa using extended.length) failure

/-- On a closed graph the walk from every vertex succeeds exactly when there is no cycle. -/
theorem visitAll_ok_iff {graph : Labelled κ} {faults : Faults ε} {size : Nat}
    (closed : graph.Closed size) :
    (∃ marks, visitAll graph faults size = .ok marks) ↔ graph.Acyclic := by
  constructor
  · rintro ⟨marks, succeeded⟩ vertex cycle
    have start : Finished graph (List.replicate size Mark.unvisited) :=
      ⟨[], .nil, by simp [List.getElem?_replicate]⟩
    have done := foldlM_ok_invariant
      (fun consumed state => Finished graph state ∧
        ∀ vertex ∈ consumed, state[vertex]? = some .visited)
      (by
        rintro consumed vertex _ state next _ ⟨finished, visited⟩ stepped
        obtain ⟨finishedNext, current⟩ := visit_finished finished stepped
        refine ⟨finishedNext, fun other member => ?_⟩
        rcases List.mem_append.mp member with member | member
        · exact (visit_extends stepped).visited _ (visited other member)
        · rw [List.mem_singleton.mp member]
          exact current)
      ⟨start, by simp⟩ succeeded
    obtain ⟨⟨finished, settled, members⟩, visited⟩ := done
    obtain ⟨next, ⟨labels, found, _⟩, _⟩ := Relation.TransGen.head'_iff.mp cycle
    have bound : vertex < size := (closed.defined vertex).mp (by simp [found])
    exact settled.acyclic ((members vertex).mp (visited vertex (by simpa using bound))) cycle
  · intro acyclic
    cases walk : visitAll graph faults size with
    | ok marks => exact ⟨marks, rfl⟩
    | error error =>
        obtain ⟨vertex, member, marks, extended, failure⟩ :=
          foldlM_error_invariant _ visitAll_marks (.refl _) walk
        obtain ⟨final, succeeded⟩ : ∃ final,
            visit graph faults (size + 1) vertex marks = .ok final := visit_succeeds closed acyclic
          (by simpa using member) (by simpa using extended.length)
          (by
            intro index visiting
            rw [extended.visiting] at visiting
            simp [List.getElem?_replicate] at visiting)
          extended.enough
        rw [succeeded] at failure
        cases failure

end Kvist.Graph
