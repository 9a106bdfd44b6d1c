import Mathlib.Data.List.Basic

/-!
# Lines of a stream

A reader takes a stream in chunks, cuts it at its line ends and keeps what stands behind the last
one. A line over the limit is refused as soon as it is seen to be one. Where the chunks begin and
end does not matter, also for what was done before a failure.
-/

set_option autoImplicit false

namespace Kvist.Lines

variable {Symbol State Failure Host : Type} [DecidableEq Symbol]

/-- The first line without its end, and what stands behind it. -/
def splitLine (ending : Symbol) : List Symbol → Option (List Symbol × List Symbol)
  | [] => none
  | symbol :: rest =>
      if symbol = ending then some ([], rest)
      else (splitLine ending rest).map fun parts => (symbol :: parts.1, parts.2)

theorem splitLine_shorter {ending : Symbol} {text line rest : List Symbol}
    (split : splitLine ending text = some (line, rest)) : rest.length < text.length := by
  induction text generalizing line with
  | nil => cases split
  | cons symbol others ih =>
      rw [splitLine] at split
      by_cases ends : symbol = ending
      · rw [if_pos ends] at split
        cases split
        exact Nat.lt_succ_self _
      · rw [if_neg ends, Option.map_eq_some_iff] at split
        obtain ⟨⟨front, back⟩, found, same⟩ := split
        cases same
        exact Nat.lt_succ_of_lt (ih found)

theorem splitLine_append {ending : Symbol} {text line rest : List Symbol}
    (split : splitLine ending text = some (line, rest)) (more : List Symbol) :
    splitLine ending (text ++ more) = some (line, rest ++ more) := by
  induction text generalizing line with
  | nil => cases split
  | cons symbol others ih =>
      rw [splitLine] at split
      rw [List.cons_append, splitLine]
      by_cases ends : symbol = ending
      · rw [if_pos ends] at split ⊢
        cases split
        rfl
      · rw [if_neg ends, Option.map_eq_some_iff] at split
        obtain ⟨⟨front, back⟩, found, same⟩ := split
        cases same
        rw [if_neg ends, ih found]
        rfl

theorem splitLine_open {ending : Symbol} {text : List Symbol}
    (split : splitLine ending text = none) (more : List Symbol) :
    splitLine ending (text ++ more) =
      (splitLine ending more).map fun parts => (text ++ parts.1, parts.2) := by
  induction text with
  | nil =>
      rw [List.nil_append]
      cases splitLine ending more with
      | none => rfl
      | some parts => rfl
  | cons symbol others ih =>
      rw [splitLine] at split
      rw [List.cons_append, splitLine]
      by_cases ends : symbol = ending
      · rw [if_pos ends] at split
        cases split
      · rw [if_neg ends, Option.map_eq_none_iff] at split
        rw [if_neg ends, ih split, Option.map_map]
        rfl

section

variable (ending : Symbol) (limit : Nat) (overlong : Failure)
  (process : State → List Symbol → EStateM Failure Host State)

def readLines (state : State) (pending : List Symbol) :
    EStateM Failure Host (State × List Symbol) :=
  match _split : splitLine ending pending with
  | none => if limit < pending.length then throw overlong else pure (state, pending)
  | some (line, rest) =>
      if limit < line.length then throw overlong
      else process state line >>= fun next => readLines next rest
termination_by pending.length
decreasing_by exact splitLine_shorter _split

theorem readLines_none {pending : List Symbol} (split : splitLine ending pending = none)
    (state : State) :
    readLines ending limit overlong process state pending =
      if limit < pending.length then throw overlong else pure (state, pending) := by
  rw [readLines]
  split
  · rfl
  · rename_i found
    rw [split] at found
    cases found

theorem readLines_some {pending line rest : List Symbol}
    (split : splitLine ending pending = some (line, rest)) (state : State) :
    readLines ending limit overlong process state pending =
      if limit < line.length then throw overlong
      else process state line >>= fun next =>
        readLines ending limit overlong process next rest := by
  rw [readLines]
  split
  · rename_i found
    rw [split] at found
    cases found
  · rename_i found
    rw [split] at found
    cases found
    rfl

/-- Reading may stop anywhere, and go on with what was kept. -/
theorem readLines_append (state : State) (pending more : List Symbol) :
    readLines ending limit overlong process state (pending ++ more) =
      readLines ending limit overlong process state pending >>= fun read =>
        readLines ending limit overlong process read.1 (read.2 ++ more) := by
  induction size : pending.length using Nat.strongRecOn generalizing state pending with
  | ind size ih =>
      cases split : splitLine ending pending with
      | none =>
          rw [readLines_none _ _ _ _ split]
          by_cases long : limit < pending.length
          · rw [if_pos long]
            have whole := splitLine_open split more
            cases later : splitLine ending more with
            | none =>
                rw [later] at whole
                have longer : limit < (pending ++ more).length := by
                  rw [List.length_append]
                  omega
                rw [readLines_none _ _ _ _ whole, if_pos longer]
                rfl
            | some parts =>
                rw [later] at whole
                have longer : limit < (pending ++ parts.1).length := by
                  rw [List.length_append]
                  omega
                rw [readLines_some _ _ _ _ whole, if_pos longer]
                rfl
          · rw [if_neg long, pure_bind]
      | some parts =>
          obtain ⟨line, rest⟩ := parts
          rw [readLines_some _ _ _ _ (splitLine_append split more),
            readLines_some _ _ _ _ split]
          by_cases long : limit < line.length
          · rw [if_pos long, if_pos long]
            rfl
          · rw [if_neg long, if_neg long, bind_assoc]
            congr 1
            funext next
            exact ih rest.length (size ▸ splitLine_shorter split) next rest rfl

/-- A chunk behind what was kept. -/
def readChunk (reader : State × List Symbol) (chunk : List Symbol) :
    EStateM Failure Host (State × List Symbol) :=
  readLines ending limit overlong process reader.1 (reader.2 ++ chunk)

theorem readLines_chunks (state : State) (pending : List Symbol) (chunks : List (List Symbol)) :
    (readLines ending limit overlong process state pending >>= fun read =>
        chunks.foldlM (readChunk ending limit overlong process) read) =
      readLines ending limit overlong process state (pending ++ chunks.flatten) := by
  induction chunks generalizing pending with
  | nil =>
      rw [List.flatten_nil, List.append_nil]
      exact bind_pure _
  | cons chunk rest ih =>
      have step : (fun read => (chunk :: rest).foldlM (readChunk ending limit overlong process) read) =
          fun read : State × List Symbol =>
            readLines ending limit overlong process read.1 (read.2 ++ chunk) >>= fun next =>
              rest.foldlM (readChunk ending limit overlong process) next := by
        funext read
        exact List.foldlM_cons
      rw [step, ← bind_assoc, ← readLines_append, ih, List.append_assoc, List.flatten_cons]

/-- The chunks of a stream are read as the whole stream is. -/
theorem foldlM_readChunk (state : State) (chunks : List (List Symbol)) :
    chunks.foldlM (readChunk ending limit overlong process) (state, []) =
      readLines ending limit overlong process state chunks.flatten := by
  have start : readLines ending limit overlong process state [] = pure (state, []) := by
    rw [readLines_none _ _ _ _ rfl]
    exact if_neg (Nat.not_lt_zero limit)
  have whole := readLines_chunks ending limit overlong process state [] chunks
  rw [start, pure_bind, List.nil_append] at whole
  exact whole

end

theorem readLines_map {Other : Type} (ending : Symbol) (limit : Nat) (overlong : Failure)
    {process : State → List Symbol → EStateM Failure Host State}
    {processOther : Other → List Symbol → EStateM Failure Host Other} (view : Other → State)
    (alike : ∀ state line, view <$> processOther state line = process (view state) line)
    (state : Other) (pending : List Symbol) :
    (fun read : Other × List Symbol => (view read.1, read.2)) <$>
        readLines ending limit overlong processOther state pending =
      readLines ending limit overlong process (view state) pending := by
  induction size : pending.length using Nat.strongRecOn generalizing state pending with
  | ind size ih =>
      cases split : splitLine ending pending with
      | none =>
          rw [readLines_none _ _ _ _ split, readLines_none _ _ _ _ split]
          by_cases long : limit < pending.length
          · rw [if_pos long, if_pos long]
            rfl
          · rw [if_neg long, if_neg long, map_pure]
      | some parts =>
          obtain ⟨line, rest⟩ := parts
          rw [readLines_some _ _ _ _ split, readLines_some _ _ _ _ split]
          by_cases long : limit < line.length
          · rw [if_pos long, if_pos long]
            rfl
          · rw [if_neg long, if_neg long, map_bind, ← alike, bind_map_left]
            congr 1
            funext next
            exact ih rest.length (size ▸ splitLine_shorter split) next rest rfl

end Kvist.Lines
