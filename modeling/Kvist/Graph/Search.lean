import Mathlib.Algebra.BigOperators.Group.Finset.Basic
import Mathlib.Algebra.Order.BigOperators.Group.Finset
import Mathlib.Logic.Relation
import Kvist.Outcome

/-!
# Worklist search

The search of a graph from a stack of pending vertices with a list of visited ones.
Looking at a vertex says that it is a goal, or gives the vertices to look at next. The
search is exact for reachability, and it ends on every finite graph, cyclic ones included.
-/

set_option autoImplicit false

namespace Kvist.Graph

variable {α ε : Type} [DecidableEq α]

/-- `inspect` gives `none` at a goal; the head of `pending` is the top of the stack. -/
def search (inspect : α → Except ε (Option (List α))) (exhausted : ε) :
    Nat → List α → List α → Except ε Bool
  | 0, _, _ => .error exhausted
  | _ + 1, [], _ => .ok false
  | fuel + 1, vertex :: pending, visited =>
      if vertex ∈ visited then search inspect exhausted fuel pending visited
      else do
        match ← inspect vertex with
        | none => .ok true
        | some next =>
            search inspect exhausted fuel (next.reverse ++ pending) (vertex :: visited)

/-- The search goes on from the first vertex to the second. -/
def Leads (inspect : α → Except ε (Option (List α))) (source destination : α) : Prop :=
  ∃ next, inspect source = .ok (some next) ∧ destination ∈ next

def Goal (inspect : α → Except ε (Option (List α))) (vertex : α) : Prop :=
  inspect vertex = .ok none

def GoalReachable (inspect : α → Except ε (Option (List α))) (pending : List α) : Prop :=
  ∃ start ∈ pending, ∃ vertex, Relation.ReflTransGen (Leads inspect) start vertex ∧
    Goal inspect vertex

variable {inspect : α → Except ε (Option (List α))} {exhausted : ε}

theorem search_seen {fuel : Nat} {vertex : α} {pending visited : List α}
    (seen : vertex ∈ visited) :
    search inspect exhausted (fuel + 1) (vertex :: pending) visited =
      search inspect exhausted fuel pending visited := by
  rw [search, if_pos seen]

theorem search_unseen {fuel : Nat} {vertex : α} {pending visited : List α}
    (unseen : vertex ∉ visited) :
    search inspect exhausted (fuel + 1) (vertex :: pending) visited = (do
      match ← inspect vertex with
      | none => .ok true
      | some next =>
          search inspect exhausted fuel (next.reverse ++ pending) (vertex :: visited)) := by
  rw [search, if_neg unseen]

theorem search_true {fuel : Nat} {pending visited : List α}
    (found : search inspect exhausted fuel pending visited = .ok true) :
    GoalReachable inspect pending := by
  induction fuel generalizing pending visited with
  | zero => cases found
  | succ fuel ih =>
      cases pending with
      | nil => cases found
      | cons vertex pending =>
          by_cases seen : vertex ∈ visited
          · rw [search_seen seen] at found
            obtain ⟨start, member, reached⟩ := ih found
            exact ⟨start, by simp [member], reached⟩
          rw [search_unseen seen] at found
          obtain ⟨answer, inspected, continued⟩ := bind_ok_iff.mp found
          cases answer with
          | none => exact ⟨vertex, by simp, vertex, .refl, inspected⟩
          | some next =>
              obtain ⟨start, member, goal, path, accepted⟩ := ih continued
              rcases List.mem_append.mp member with member | member
              · have edge : Leads inspect vertex start :=
                  ⟨next, inspected, by simpa using member⟩
                exact ⟨vertex, by simp, goal, .head edge path, accepted⟩
              · exact ⟨start, by simp [member], goal, path, accepted⟩

def Expanded (inspect : α → Except ε (Option (List α))) (pending visited : List α) : Prop :=
  ∀ vertex ∈ visited, ∃ next, inspect vertex = .ok (some next) ∧
    ∀ other ∈ next, other ∈ visited ∨ other ∈ pending

/-- A search that answers no has looked at everything the pending vertices reach. -/
theorem search_false {fuel : Nat} {pending visited : List α}
    (expanded : Expanded inspect pending visited)
    (notFound : search inspect exhausted fuel pending visited = .ok false) :
    ∃ all, Expanded inspect [] all ∧ ∀ vertex ∈ pending, vertex ∈ all := by
  suffices general : ∃ all, Expanded inspect [] all ∧
      ∀ vertex, vertex ∈ visited ∨ vertex ∈ pending → vertex ∈ all by
    obtain ⟨all, closed, members⟩ := general
    exact ⟨all, closed, fun vertex member => members vertex (.inr member)⟩
  induction fuel generalizing pending visited with
  | zero => cases notFound
  | succ fuel ih =>
      cases pending with
      | nil => exact ⟨visited, expanded, by simp⟩
      | cons vertex pending =>
          by_cases seen : vertex ∈ visited
          · rw [search_seen seen] at notFound
            have expandedRest : Expanded inspect pending visited := by
              intro other member
              obtain ⟨next, inspected, covered⟩ := expanded other member
              refine ⟨next, inspected, fun target targetMember => ?_⟩
              rcases covered target targetMember with inside | inside
              · exact .inl inside
              · rcases List.mem_cons.mp inside with rfl | inside
                · exact .inl seen
                · exact .inr inside
            obtain ⟨all, closed, members⟩ := ih expandedRest notFound
            refine ⟨all, closed, fun other member => members other ?_⟩
            rcases member with member | member
            · exact .inl member
            · rcases List.mem_cons.mp member with rfl | member
              · exact .inl seen
              · exact .inr member
          rw [search_unseen seen] at notFound
          obtain ⟨answer, inspected, continued⟩ := bind_ok_iff.mp notFound
          cases answer with
          | none => cases continued
          | some next =>
              have expandedNext :
                  Expanded inspect (next.reverse ++ pending) (vertex :: visited) := by
                intro other member
                rcases List.mem_cons.mp member with rfl | member
                · exact ⟨next, inspected, fun target inside => .inr (by simp [inside])⟩
                · obtain ⟨successors, inspectedOther, covered⟩ := expanded other member
                  refine ⟨successors, inspectedOther, fun target inside => ?_⟩
                  rcases covered target inside with inside | inside
                  · exact .inl (by simp [inside])
                  · rcases List.mem_cons.mp inside with rfl | inside
                    · exact .inl (by simp)
                    · exact .inr (by simp [inside])
              obtain ⟨all, closed, members⟩ := ih expandedNext continued
              refine ⟨all, closed, fun other member => members other ?_⟩
              rcases member with member | member
              · exact .inl (by simp [member])
              · rcases List.mem_cons.mp member with rfl | member
                · exact .inl (by simp)
                · exact .inr (by simp [member])

omit [DecidableEq α] in
private theorem Expanded.not_goal {all : List α} (closed : Expanded inspect [] all)
    {start vertex : α} (member : start ∈ all)
    (path : Relation.ReflTransGen (Leads inspect) start vertex) : ¬ Goal inspect vertex := by
  have inside : vertex ∈ all := by
    induction path with
    | refl => exact member
    | tail _ edge ih =>
        obtain ⟨next, inspected, covered⟩ := closed _ ih
        obtain ⟨others, inspectedAgain, target⟩ := edge
        rw [inspected] at inspectedAgain
        cases inspectedAgain
        simpa using covered _ target
  obtain ⟨next, inspected, _⟩ := closed vertex inside
  intro goal
  rw [Goal, inspected] at goal
  cases goal

theorem search_ok_iff {fuel : Nat} {pending : List α} {found : Bool}
    (finished : search inspect exhausted fuel pending [] = .ok found) :
    found = true ↔ GoalReachable inspect pending := by
  cases found with
  | true => simpa using search_true finished
  | false =>
      obtain ⟨all, closed, members⟩ := search_false (by simp [Expanded]) finished
      simp only [Bool.false_eq_true, false_iff]
      rintro ⟨start, member, vertex, path, goal⟩
      exact closed.not_goal (members start member) path goal

omit [DecidableEq α] in
theorem exists_goal_of_path {edge : α → α → Prop}
    (expands : ∀ left right, edge left right → Goal inspect left ∨ Leads inspect left right)
    {start goal : α} (path : Relation.ReflTransGen edge start goal) (accepted : Goal inspect goal) :
    ∃ first, Relation.ReflTransGen (Leads inspect) start first ∧ Goal inspect first := by
  induction path using Relation.ReflTransGen.head_induction_on with
  | refl => exact ⟨goal, .refl, accepted⟩
  | @head left right step _ ih =>
      rcases expands left right step with here | leads
      · exact ⟨left, .refl, here⟩
      · obtain ⟨first, rest, found⟩ := ih
        exact ⟨first, .head leads rest, found⟩

/-! ## The search ends -/

variable {vertices : Finset α} {cost : α → Nat}

/-- What is still to be looked at: the stack, and the edges of the unvisited vertices. -/
def remaining (vertices : Finset α) (cost : α → Nat) (pending visited : List α) : Nat :=
  pending.length + ∑ vertex ∈ vertices.filter (· ∉ visited), cost vertex

private theorem remaining_unseen {vertex : α} {pending visited next : List α}
    (member : vertex ∈ vertices) (unseen : vertex ∉ visited) (bounded : next.length ≤ cost vertex) :
    remaining vertices cost (next.reverse ++ pending) (vertex :: visited) <
      remaining vertices cost (vertex :: pending) visited := by
  have split : vertices.filter (· ∉ visited) =
      insert vertex (vertices.filter (· ∉ vertex :: visited)) := by
    ext other
    by_cases same : other = vertex
    · subst same
      simp [member, unseen]
    · simp [same]
  rw [remaining, remaining, split, Finset.sum_insert (by simp)]
  simp only [List.length_append, List.length_reverse, List.length_cons]
  omega

/-- The search of a graph with finitely many vertices ends within the bound. -/
theorem search_not_exhausted
    (bounded : ∀ vertex next, inspect vertex = .ok (some next) →
      vertex ∈ vertices ∧ next.length ≤ cost vertex)
    (other : ∀ vertex, inspect vertex ≠ .error exhausted) {fuel : Nat} {pending visited : List α}
    (enough : remaining vertices cost pending visited < fuel) :
    search inspect exhausted fuel pending visited ≠ .error exhausted := by
  induction fuel generalizing pending visited with
  | zero => omega
  | succ fuel ih =>
      cases pending with
      | nil => simp [search]
      | cons vertex pending =>
          by_cases seen : vertex ∈ visited
          · rw [search_seen seen]
            refine ih ?_
            simp only [remaining, List.length_cons] at enough ⊢
            omega
          rw [search_unseen seen]
          cases inspected : inspect vertex with
          | error error => simpa [inspected] using other vertex
          | ok answer =>
              cases answer with
              | none => simp
              | some next =>
                  obtain ⟨member, small⟩ := bounded vertex next inspected
                  have fewer : remaining vertices cost (next.reverse ++ pending) (vertex :: visited) <
                      remaining vertices cost (vertex :: pending) visited :=
                    remaining_unseen member seen small
                  exact ih (by omega)

/-- When looking at a vertex never fails, neither does the search. -/
theorem search_total
    (bounded : ∀ vertex next, inspect vertex = .ok (some next) →
      vertex ∈ vertices ∧ next.length ≤ cost vertex)
    (closed : ∀ vertex ∈ vertices, ∃ answer, inspect vertex = .ok answer ∧
      ∀ next, answer = some next → ∀ target ∈ next, target ∈ vertices)
    {fuel : Nat} {pending visited : List α} (inside : ∀ vertex ∈ pending, vertex ∈ vertices)
    (enough : remaining vertices cost pending visited < fuel) :
    ∃ found, search inspect exhausted fuel pending visited = .ok found := by
  induction fuel generalizing pending visited with
  | zero => omega
  | succ fuel ih =>
      cases pending with
      | nil => exact ⟨false, rfl⟩
      | cons vertex pending =>
          by_cases seen : vertex ∈ visited
          · rw [search_seen seen]
            refine ih (fun other member => inside other (by simp [member])) ?_
            simp only [remaining, List.length_cons] at enough ⊢
            omega
          rw [search_unseen seen]
          obtain ⟨answer, inspected, stays⟩ := closed vertex (inside vertex (by simp))
          rw [inspected, ok_bind]
          cases answer with
          | none => exact ⟨true, rfl⟩
          | some next =>
              have small := (bounded vertex next inspected).2
              have fewer : remaining vertices cost (next.reverse ++ pending) (vertex :: visited) <
                  remaining vertices cost (vertex :: pending) visited :=
                remaining_unseen (inside vertex (by simp)) seen small
              refine ih (fun other member => ?_) (by omega)
              rcases List.mem_append.mp member with member | member
              · exact stays next rfl other (by simpa using member)
              · exact inside other (by simp [member])

/-! ## Exploring without a goal -/

section Explore

variable (next : α → List α)

/-- Every vertex that the stack leads to, with the ones visited before; the head of `pending` is
the top of the stack. -/
def explore : Nat → List α → List α → Option (List α)
  | 0, _, _ => none
  | _ + 1, [], visited => some visited
  | fuel + 1, vertex :: pending, visited =>
      if vertex ∈ visited then explore fuel pending visited
      else explore fuel ((next vertex).reverse ++ pending) (vertex :: visited)

/-- An edge of the explored graph. -/
def Next (source destination : α) : Prop := destination ∈ next source

/-- Some pending vertex leads to this one. -/
def Reached (pending : List α) (vertex : α) : Prop :=
  ∃ start ∈ pending, Relation.ReflTransGen (Next next) start vertex

variable {next}

theorem explore_seen {fuel : Nat} {vertex : α} {pending visited : List α}
    (seen : vertex ∈ visited) :
    explore next (fuel + 1) (vertex :: pending) visited = explore next fuel pending visited := by
  rw [explore, if_pos seen]

theorem explore_unseen {fuel : Nat} {vertex : α} {pending visited : List α}
    (unseen : vertex ∉ visited) :
    explore next (fuel + 1) (vertex :: pending) visited =
      explore next fuel ((next vertex).reverse ++ pending) (vertex :: visited) := by
  rw [explore, if_neg unseen]

/-- No vertex is visited twice. -/
theorem explore_nodup {fuel : Nat} {pending visited all : List α} (distinct : visited.Nodup)
    (finished : explore next fuel pending visited = some all) : all.Nodup := by
  induction fuel generalizing pending visited with
  | zero => cases finished
  | succ fuel ih =>
      cases pending with
      | nil => exact Option.some.inj finished ▸ distinct
      | cons vertex pending =>
          by_cases seen : vertex ∈ visited
          · rw [explore_seen seen] at finished
            exact ih distinct finished
          · rw [explore_unseen seen] at finished
            exact ih (List.nodup_cons.mpr ⟨seen, distinct⟩) finished

theorem explore_reached {fuel : Nat} {pending visited all : List α}
    (finished : explore next fuel pending visited = some all) {vertex : α} (member : vertex ∈ all) :
    vertex ∈ visited ∨ Reached next pending vertex := by
  induction fuel generalizing pending visited with
  | zero => cases finished
  | succ fuel ih =>
      cases pending with
      | nil => exact .inl (Option.some.inj finished ▸ member)
      | cons first pending =>
          by_cases seen : first ∈ visited
          · rw [explore_seen seen] at finished
            rcases ih finished with before | ⟨start, inside, path⟩
            · exact .inl before
            · exact .inr ⟨start, List.mem_cons_of_mem _ inside, path⟩
          · rw [explore_unseen seen] at finished
            rcases ih finished with before | ⟨start, inside, path⟩
            · rcases List.mem_cons.mp before with rfl | before
              · exact .inr ⟨vertex, List.mem_cons_self, .refl⟩
              · exact .inl before
            · rcases List.mem_append.mp inside with inside | inside
              · have edge : Next next first start := List.mem_reverse.mp inside
                exact .inr ⟨first, List.mem_cons_self, .head edge path⟩
              · exact .inr ⟨start, List.mem_cons_of_mem _ inside, path⟩

/-- The edges of what is visited lead to visited or pending vertices, so that in the end nothing
leads out. -/
theorem explore_closed {fuel : Nat} {pending visited all : List α}
    (covered : ∀ vertex ∈ visited, ∀ target ∈ next vertex, target ∈ visited ∨ target ∈ pending)
    (finished : explore next fuel pending visited = some all) :
    (∀ vertex, vertex ∈ visited ∨ vertex ∈ pending → vertex ∈ all) ∧
      ∀ vertex ∈ all, ∀ target ∈ next vertex, target ∈ all := by
  induction fuel generalizing pending visited with
  | zero => cases finished
  | succ fuel ih =>
      cases pending with
      | nil =>
          cases finished
          simp only [List.not_mem_nil, or_false] at covered ⊢
          exact ⟨fun _ member => member, covered⟩
      | cons first pending =>
          by_cases seen : first ∈ visited
          · rw [explore_seen seen] at finished
            have kept : ∀ vertex ∈ visited, ∀ target ∈ next vertex,
                target ∈ visited ∨ target ∈ pending := by
              intro vertex member target edge
              rcases covered vertex member target edge with inside | inside
              · exact .inl inside
              · rcases List.mem_cons.mp inside with rfl | inside
                · exact .inl seen
                · exact .inr inside
            obtain ⟨members, closed⟩ := ih kept finished
            refine ⟨fun vertex member => members vertex ?_, closed⟩
            rcases member with member | member
            · exact .inl member
            · rcases List.mem_cons.mp member with rfl | member
              · exact .inl seen
              · exact .inr member
          · rw [explore_unseen seen] at finished
            have kept : ∀ vertex ∈ first :: visited, ∀ target ∈ next vertex,
                target ∈ first :: visited ∨ target ∈ (next first).reverse ++ pending := by
              intro vertex member target edge
              rcases List.mem_cons.mp member with rfl | member
              · exact .inr (by simp [edge])
              · rcases covered vertex member target edge with inside | inside
                · exact .inl (List.mem_cons_of_mem _ inside)
                · rcases List.mem_cons.mp inside with rfl | inside
                  · exact .inl List.mem_cons_self
                  · exact .inr (List.mem_append_right _ inside)
            obtain ⟨members, closed⟩ := ih kept finished
            refine ⟨fun vertex member => members vertex ?_, closed⟩
            rcases member with member | member
            · exact .inl (List.mem_cons_of_mem _ member)
            · rcases List.mem_cons.mp member with rfl | member
              · exact .inl List.mem_cons_self
              · exact .inr (List.mem_append_right _ member)

/-- From nothing visited, exactly what the stack leads to is visited. -/
theorem mem_explore_iff {fuel : Nat} {pending all : List α}
    (finished : explore next fuel pending [] = some all) (vertex : α) :
    vertex ∈ all ↔ Reached next pending vertex := by
  constructor
  · intro member
    rcases explore_reached finished member with before | reached
    · cases before
    · exact reached
  · intro reached
    obtain ⟨start, inside, path⟩ := reached
    obtain ⟨members, closed⟩ := explore_closed (by simp) finished
    induction path with
    | refl => exact members start (.inr inside)
    | tail _ edge ih => exact closed _ ih _ edge

/-- The exploration of a finite graph ends within the bound. -/
theorem explore_total
    (bounded : ∀ vertex ∈ vertices, (next vertex).length ≤ cost vertex ∧
      ∀ target ∈ next vertex, target ∈ vertices)
    {fuel : Nat} {pending visited : List α} (inside : ∀ vertex ∈ pending, vertex ∈ vertices)
    (enough : remaining vertices cost pending visited < fuel) :
    ∃ all, explore next fuel pending visited = some all := by
  induction fuel generalizing pending visited with
  | zero => omega
  | succ fuel ih =>
      cases pending with
      | nil => exact ⟨visited, rfl⟩
      | cons vertex pending =>
          have insideRest : ∀ other ∈ pending, other ∈ vertices :=
            fun other member => inside other (List.mem_cons_of_mem _ member)
          by_cases seen : vertex ∈ visited
          · rw [explore_seen seen]
            refine ih insideRest ?_
            simp only [remaining, List.length_cons] at enough ⊢
            omega
          · rw [explore_unseen seen]
            obtain ⟨small, stays⟩ := bounded vertex (inside vertex List.mem_cons_self)
            have fewer : remaining vertices cost ((next vertex).reverse ++ pending)
                (vertex :: visited) < remaining vertices cost (vertex :: pending) visited :=
              remaining_unseen (inside vertex List.mem_cons_self) seen small
            refine ih (fun other member => ?_) (by omega)
            rcases List.mem_append.mp member with member | member
            · exact stays other (List.mem_reverse.mp member)
            · exact insideRest other member

end Explore

end Kvist.Graph
