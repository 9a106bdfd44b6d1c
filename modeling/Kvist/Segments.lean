import Mathlib.Data.List.Basic

/-!
# Records over a sequence of files

Each record is written as a line. Some records close the file they are written to, and the next
record begins another file. A line ends with a symbol that stands nowhere else in it.
-/

set_option autoImplicit false

namespace Kvist.Segments

variable {Record Symbol : Type} (line : Record → List Symbol) (closes : Record → Bool)

/-- What the records add to the file at hand, and the files that they begin. -/
def place : List Record → List Symbol × List (List Symbol)
  | [] => ([], [])
  | record :: rest =>
      if closes record then (line record, (place rest).1 :: (place rest).2)
      else (line record ++ (place rest).1, (place rest).2)

def files (records : List Record) : List (List Symbol) :=
  (place line closes records).1 :: (place line closes records).2

theorem files_cons_closing {record : Record} (closing : closes record = true)
    (rest : List Record) :
    files line closes (record :: rest) = line record :: files line closes rest := by
  simp [files, place, closing]

theorem files_cons_open {record : Record} (stays : closes record = false) (rest : List Record) :
    files line closes (record :: rest) =
      (line record ++ (place line closes rest).1) :: (place line closes rest).2 := by
  simp [files, place, stays]

/-- Later records go on with the last of the files. -/
theorem files_append {before : List Record} {closed : List (List Symbol)} {file : List Symbol}
    (laid : files line closes before = closed ++ [file]) (after : List Record) :
    files line closes (before ++ after) =
      closed ++ (file ++ (place line closes after).1) :: (place line closes after).2 := by
  induction before generalizing closed file with
  | nil =>
      obtain ⟨rfl, rfl⟩ : closed = [] ∧ file = [] := by
        cases closed with
        | nil => exact ⟨rfl, by simpa [files, place] using laid.symm⟩
        | cons first others => simp [files, place] at laid
      rfl
  | cons record rest ih =>
      rw [List.cons_append]
      cases closing : closes record with
      | true =>
          rw [files_cons_closing line closes closing] at laid ⊢
          cases closed with
          | nil => simp [files] at laid
          | cons first others =>
              obtain ⟨rfl, remaining⟩ := List.cons.inj laid
              rw [ih remaining, List.cons_append]
      | false =>
          rw [files_cons_open line closes closing] at laid ⊢
          cases closed with
          | nil =>
              obtain ⟨rfl, none⟩ := List.cons.inj laid
              have begun : files line closes rest = [] ++ [(place line closes rest).1] := by
                rw [files, none]
                rfl
              have continued := ih begun
              simp only [List.nil_append, files, List.cons.injEq] at continued ⊢
              exact ⟨by rw [continued.1, List.append_assoc], continued.2⟩
          | cons first others =>
              obtain ⟨rfl, remaining⟩ := List.cons.inj laid
              have begun : files line closes rest =
                  ((place line closes rest).1 :: others) ++ [file] := by
                rw [files, remaining]
                rfl
              have continued := ih begun
              simp only [files, List.cons_append, List.cons.injEq] at continued ⊢
              exact ⟨by rw [continued.1], continued.2⟩

theorem files_push_open {before : List Record} {closed : List (List Symbol)} {file : List Symbol}
    (laid : files line closes before = closed ++ [file]) {record : Record}
    (stays : closes record = false) :
    files line closes (before ++ [record]) = closed ++ [file ++ line record] := by
  rw [files_append line closes laid [record]]
  simp [place, stays]

theorem files_push_closing {before : List Record} {closed : List (List Symbol)}
    {file : List Symbol} (laid : files line closes before = closed ++ [file]) {record : Record}
    (closing : closes record = true) :
    files line closes (before ++ [record]) = (closed ++ [file ++ line record]) ++ [[]] := by
  rw [files_append line closes laid [record]]
  simp [place, closing]

theorem length_files (records : List Record) :
    (files line closes records).length = records.countP closes + 1 := by
  induction records with
  | nil => rfl
  | cons record rest ih =>
      cases closing : closes record with
      | true =>
          rw [files_cons_closing line closes closing, List.length_cons, ih,
            List.countP_cons_of_pos closing]
      | false =>
          rw [files_cons_open line closes closing, List.countP_cons_of_neg (by simp [closing])]
          exact ih

theorem exists_files (records : List Record) :
    ∃ closed file, files line closes records = closed ++ [file] ∧
      closed.length = records.countP closes := by
  have nonempty : files line closes records ≠ [] := List.cons_ne_nil _ _
  refine ⟨_, _, (List.dropLast_concat_getLast nonempty).symm, ?_⟩
  rw [List.length_dropLast, length_files, Nat.add_sub_cancel]

/-- The file behind the records that have been closed goes on with the records that follow. -/
theorem getElem?_files {before : List Record} {record : Record} (closing : closes record = true)
    (after : List Record) :
    (files line closes (before ++ [record] ++ after))[(before ++ [record]).countP closes]? =
      some (place line closes after).1 := by
  obtain ⟨closed, file, laid, count⟩ := exists_files line closes before
  have pushed := files_push_closing line closes laid closing
  have size : (closed ++ [file ++ line record]).length = (before ++ [record]).countP closes := by
    rw [List.length_append, count, List.countP_append, List.countP_singleton, if_pos closing]
    rfl
  rw [files_append line closes pushed after, ← size, List.nil_append,
    List.getElem?_append_right (Nat.le_refl _), Nat.sub_self, List.getElem?_cons_zero]

section Lines

variable [DecidableEq Symbol] {stop : Symbol}

omit [DecidableEq Symbol] in
/-- The first end of a line is where it is, however the text is divided. -/
theorem first_stop {front back body rest : List Symbol} (clear : stop ∉ front)
    (bodyClear : stop ∉ body) (same : front ++ stop :: back = body ++ stop :: rest) :
    front = body ∧ back = rest := by
  induction front generalizing body with
  | nil =>
      cases body with
      | nil => exact ⟨rfl, (List.cons.inj same).2⟩
      | cons first others =>
          exact absurd ((List.cons.inj same).1 ▸ List.mem_cons_self) bodyClear
  | cons first others ih =>
      cases body with
      | nil => exact absurd ((List.cons.inj same).1 ▸ List.mem_cons_self) clear
      | cons head tail =>
          obtain ⟨rfl, remaining⟩ := List.cons.inj same
          have shorter := ih (fun member => clear (List.mem_cons_of_mem _ member))
            (fun member => bodyClear (List.mem_cons_of_mem _ member)) remaining
          exact ⟨by rw [shorter.1], shorter.2⟩

omit [DecidableEq Symbol] in
/-- A line that has not ended yet is no longer than the line. -/
theorem length_unfinished {begun others body rest : List Symbol}
    (same : begun ++ others = body ++ stop :: rest) (clear : stop ∉ begun) :
    begun.length ≤ body.length := by
  rcases List.append_eq_append_iff.mp same with ⟨more, whole, -⟩ | ⟨more, whole, later⟩
  · rw [whole, List.length_append]
    exact Nat.le_add_right ..
  · cases more with
    | nil => exact Nat.le_of_eq (by rw [whole, List.append_nil])
    | cons first more =>
        rw [List.cons_append] at later
        obtain ⟨rfl, -⟩ := List.cons.inj later
        exact absurd (whole ▸ List.mem_append_right _ List.mem_cons_self) clear

/-- A piece of what is unread, up to the first end of a line, completes the line begun. -/
theorem take_line {pending unread body rest piece : List Symbol} {index : Nat}
    (same : pending ++ unread = body ++ stop :: rest) (clear : stop ∉ pending)
    (bodyClear : stop ∉ body) (visible : piece <+: unread)
    (found : piece.idxOf? stop = some index) :
    pending ++ piece.take (index + 1) = body ++ [stop] ∧ unread.drop (index + 1) = rest := by
  obtain ⟨remaining, rfl⟩ := visible
  obtain ⟨inside, here, earlier⟩ := List.idxOf?_eq_some_iff.mp found
  have divided : piece = piece.take index ++ stop :: piece.drop (index + 1) := by
    conv => lhs; rw [← List.take_append_drop index piece]
    rw [List.drop_eq_getElem_cons inside, here]
  have front : stop ∉ pending ++ piece.take index := by
    intro member
    rcases List.mem_append.mp member with early | late
    · exact clear early
    · obtain ⟨position, bound, at_position⟩ := List.mem_iff_getElem.mp late
      rw [List.length_take] at bound
      rw [List.getElem_take] at at_position
      exact earlier position (by omega) at_position
  rw [divided, ← List.append_assoc, ← List.append_assoc, List.append_assoc _ _ remaining,
    List.cons_append] at same
  obtain ⟨whole, others⟩ := first_stop front bodyClear same
  refine ⟨?_, ?_⟩
  · rw [List.take_add_one, List.getElem?_eq_getElem inside, here, ← List.append_assoc, whole]
    rfl
  · rw [List.drop_append_of_le_length (by omega), others]

end Lines

end Kvist.Segments
