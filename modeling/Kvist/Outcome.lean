import Mathlib.Data.List.Basic
import Mathlib.Data.List.Forall2

/-!
# Checked computations

Rules for computations in `Except`: a guard, a check of every element of a list, and the
inversion of a successful sequence. Nothing here depends on a particular program.
-/

set_option autoImplicit false

namespace Kvist

variable {ε α β : Type}

/-- Fail with `error` unless the condition holds. -/
def ensure (condition : Bool) (error : ε) : Except ε Unit :=
  if condition then .ok () else .error error

/-- `found.ok_or(error)`. -/
def okOr (found : Option α) (error : ε) : Except ε α := found.elim (.error error) .ok

/-- Check every element in order and stop at the first failure. -/
def checkAll (check : α → Except ε Unit) : List α → Except ε Unit
  | [] => .ok ()
  | value :: rest => do
      check value
      checkAll check rest

@[simp] theorem ensure_ok_iff {condition : Bool} {error : ε} :
    ensure condition error = .ok () ↔ condition = true := by
  cases condition <;> simp [ensure]

theorem ensure_eq_ok_iff {condition : Bool} {error : ε} {value : Unit} :
    ensure condition error = .ok value ↔ condition = true := ensure_ok_iff

@[simp] theorem ensure_true {error : ε} : ensure true error = .ok () := rfl

@[simp] theorem ensure_false {error : ε} : ensure false error = .error error := rfl

theorem bind_ok_iff {first : Except ε α} {next : α → Except ε β} {result : β} :
    (first >>= next) = .ok result ↔ ∃ value, first = .ok value ∧ next value = .ok result := by
  cases first with
  | error error => simp [bind, Except.bind]
  | ok value => simp [bind, Except.bind]

theorem bind_unit_ok_iff {first : Except ε Unit} {next : Unit → Except ε β} {result : β} :
    (first >>= next) = .ok result ↔ first = .ok () ∧ next () = .ok result := by
  rw [bind_ok_iff]
  constructor
  · rintro ⟨⟨⟩, checked, continued⟩
    exact ⟨checked, continued⟩
  · rintro ⟨checked, continued⟩
    exact ⟨(), checked, continued⟩

@[simp] theorem pure_eq_ok (value : α) : (pure value : Except ε α) = .ok value := rfl

@[simp] theorem ok_bind (value : α) (next : α → Except ε β) :
    ((.ok value : Except ε α) >>= next) = next value := rfl

@[simp] theorem error_bind (error : ε) (next : α → Except ε β) :
    ((.error error : Except ε α) >>= next) = .error error := rfl

@[simp] theorem okOr_some (value : α) (error : ε) : okOr (some value) error = .ok value := rfl

theorem okOr_ok_iff {found : Option α} {error : ε} {value : α} :
    okOr found error = .ok value ↔ found = some value := by
  cases found with
  | none => simp [okOr]
  | some other => simp [okOr]

theorem eq_ok_of_toOption {computed : Except ε α} {value : α}
    (found : computed.toOption = some value) : computed = .ok value := by
  cases computed with
  | error error => cases found
  | ok other => rw [← Option.some.inj found]

theorem eq_ok_of_isOk {computed : Except ε Unit} (accepted : computed.isOk = true) :
    computed = .ok () := by
  cases computed with
  | error error => cases accepted
  | ok value => rfl

@[simp] theorem checkAll_nil (check : α → Except ε Unit) : checkAll check [] = .ok () := rfl

theorem checkAll_cons (check : α → Except ε Unit) (value : α) (rest : List α) :
    checkAll check (value :: rest) = (check value >>= fun _ => checkAll check rest) := rfl

theorem checkAll_ok_iff {check : α → Except ε Unit} {values : List α} :
    checkAll check values = .ok () ↔ ∀ value ∈ values, check value = .ok () := by
  induction values with
  | nil => simp
  | cons value rest ih =>
      rw [checkAll_cons, bind_unit_ok_iff, ih]
      simp

/-- A successful `mapM` is one successful call for each value. -/
theorem mapM_ok_iff {call : α → Except ε β} {values : List α} {results : List β} :
    values.mapM call = .ok results ↔
      List.Forall₂ (fun value result => call value = .ok result) values results := by
  induction values generalizing results with
  | nil => simp [eq_comm]
  | cons value rest ih =>
      rw [List.mapM_cons, bind_ok_iff]
      constructor
      · rintro ⟨first, called, continued⟩
        obtain ⟨others, calledRest, gathered⟩ := bind_ok_iff.mp continued
        cases gathered
        exact .cons called (ih.mp calledRest)
      · rintro (_ | ⟨called, others⟩)
        exact ⟨_, called, bind_ok_iff.mpr ⟨_, ih.mpr others, rfl⟩⟩

theorem mapM_ok_length {call : α → Except ε β} {values : List α} {results : List β}
    (called : values.mapM call = .ok results) : results.length = values.length :=
  (mapM_ok_iff.mp called).length_eq.symm

theorem mem_of_mapM_ok {call : α → Except ε β} {values : List α} {results : List β}
    (called : values.mapM call = .ok results) (result : β) :
    result ∈ results ↔ ∃ value ∈ values, call value = .ok result := by
  have pairs := mapM_ok_iff.mp called
  clear called
  induction pairs with
  | nil => simp
  | @cons value first values results called _ ih =>
      simp only [List.mem_cons, exists_eq_or_imp, called, Except.ok.injEq, ih, eq_comm (a := result)]

theorem mapM_total {call : α → Except ε β} {values : List α}
    (total : ∀ value ∈ values, ∃ result, call value = .ok result) :
    ∃ results, values.mapM call = .ok results := by
  induction values with
  | nil => exact ⟨[], rfl⟩
  | cons value rest ih =>
      obtain ⟨first, called⟩ := total value (by simp)
      obtain ⟨others, calledRest⟩ := ih fun other member => total other (by simp [member])
      exact ⟨first :: others, by simp [List.mapM_cons, called, calledRest]⟩

theorem mapM_error {call : α → Except ε β} {values : List α} {error : ε}
    (failed : values.mapM call = .error error) : ∃ value ∈ values, call value = .error error := by
  induction values with
  | nil => cases failed
  | cons value rest ih =>
      rw [List.mapM_cons] at failed
      cases called : call value with
      | error other =>
          rw [called, error_bind] at failed
          cases failed
          exact ⟨value, by simp, called⟩
      | ok first =>
          rw [called, ok_bind] at failed
          cases calledRest : rest.mapM call with
          | error other =>
              rw [calledRest, error_bind] at failed
              cases failed
              obtain ⟨other, member, failure⟩ := ih calledRest
              exact ⟨other, by simp [member], failure⟩
          | ok others => rw [calledRest, ok_bind] at failed; cases failed

theorem checkAll_error {check : α → Except ε Unit} {values : List α} {error : ε}
    (failed : checkAll check values = .error error) :
    ∃ value ∈ values, check value = .error error := by
  induction values with
  | nil => cases failed
  | cons value rest ih =>
      rw [checkAll_cons] at failed
      cases checked : check value with
      | error other =>
          rw [checked, error_bind] at failed
          cases failed
          exact ⟨value, by simp, checked⟩
      | ok _ =>
          rw [checked, ok_bind] at failed
          obtain ⟨other, member, failure⟩ := ih failed
          exact ⟨other, by simp [member], failure⟩

variable {σ : Type}

/-- What every successful step preserves holds at the end of a successful fold. The
invariant may speak of the values already consumed. -/
theorem foldlM_ok_invariant {step : σ → α → Except ε σ} {values : List α}
    (Invariant : List α → σ → Prop)
    (preserved : ∀ consumed value rest state next, values = consumed ++ value :: rest →
      Invariant consumed state → step state value = .ok next →
      Invariant (consumed ++ [value]) next)
    {start final : σ} (initial : Invariant [] start)
    (succeeded : values.foldlM step start = .ok final) : Invariant values final := by
  suffices general : ∀ rest consumed state, values = consumed ++ rest →
      Invariant consumed state → rest.foldlM step state = .ok final →
      Invariant values final from general values [] start rfl initial succeeded
  intro rest
  induction rest with
  | nil =>
      intro consumed state split invariant succeeded
      simp only [List.foldlM_nil, pure_eq_ok, Except.ok.injEq] at succeeded
      rw [split, List.append_nil, ← succeeded]
      exact invariant
  | cons value rest ih =>
      intro consumed state split invariant succeeded
      rw [List.foldlM_cons, bind_ok_iff] at succeeded
      obtain ⟨next, stepped, succeeded⟩ := succeeded
      exact ih (consumed ++ [value]) next (by simpa using split)
        (preserved consumed value rest state next split invariant stepped) succeeded

theorem foldlM_error_invariant {step : σ → α → Except ε σ} {values : List α}
    (Invariant : σ → Prop)
    (preserved : ∀ value ∈ values, ∀ state next, Invariant state →
      step state value = .ok next → Invariant next)
    {start : σ} {error : ε} (initial : Invariant start)
    (failed : values.foldlM step start = .error error) :
    ∃ value ∈ values, ∃ state, Invariant state ∧ step state value = .error error := by
  induction values generalizing start with
  | nil => simp [List.foldlM_nil] at failed
  | cons value rest ih =>
      rw [List.foldlM_cons] at failed
      cases stepped : step start value with
      | error other =>
          rw [stepped, error_bind] at failed
          cases failed
          exact ⟨value, by simp, start, initial, stepped⟩
      | ok next =>
          rw [stepped, ok_bind] at failed
          obtain ⟨other, member, state, invariant, failure⟩ :=
            ih (fun other member => preserved other (by simp [member]))
              (preserved value (by simp) start next initial stepped) failed
          exact ⟨other, by simp [member], state, invariant, failure⟩

end Kvist
