import Mathlib.Data.List.Infix
import Mathlib.Data.List.Pairwise

/-!
# Searching from the left

A place in a text is found by a test on the text from there on. The search goes on behind what was
found, so of places that overlap only the first one counts. What is found can be replaced.
-/

set_option autoImplicit false

namespace Kvist.Occurrences

section Search

variable {Symbol : Type} (test : List Symbol → Bool) (width : Nat)

def starts : Nat → Nat → List Symbol → List Nat
  | _, _, [] => []
  | skip + 1, offset, _ :: rest => starts skip (offset + 1) rest
  | 0, offset, symbol :: rest =>
      if test (symbol :: rest) then offset :: starts (width - 1) (offset + 1) rest
      else starts 0 (offset + 1) rest

def substitute (replacement : List Symbol) : Nat → List Symbol → List Symbol
  | _, [] => []
  | skip + 1, _ :: rest => substitute replacement skip rest
  | 0, symbol :: rest =>
      if test (symbol :: rest) then replacement ++ substitute replacement (width - 1) rest
      else symbol :: substitute replacement 0 rest

variable {test width}

theorem mem_starts {skip base offset : Nat} {text : List Symbol}
    (member : offset ∈ starts test width skip base text) :
    base + skip ≤ offset ∧ offset < base + text.length ∧
      test (text.drop (offset - base)) = true := by
  induction text generalizing skip base with
  | nil => cases skip <;> cases member
  | cons symbol rest ih =>
      have later : ∀ {skip : Nat}, offset ∈ starts test width skip (base + 1) rest →
          base + 1 + skip ≤ offset ∧ offset < base + (symbol :: rest).length ∧
            test ((symbol :: rest).drop (offset - base)) = true := by
        intro skip inside
        obtain ⟨low, high, found⟩ := ih inside
        refine ⟨low, ?_, ?_⟩
        · rw [List.length_cons]
          omega
        · have step : offset - base = offset - (base + 1) + 1 := by omega
          rw [step, List.drop_succ_cons]
          exact found
      cases skip with
      | succ skip =>
          obtain ⟨low, rest⟩ := later member
          exact ⟨by omega, rest⟩
      | zero =>
          rw [starts] at member
          split at member
          · rename_i found
            rcases List.mem_cons.mp member with rfl | inside
            · refine ⟨Nat.le_refl _, ?_, ?_⟩
              · rw [List.length_cons]
                omega
              · rw [Nat.sub_self, List.drop_zero]
                exact found
            · obtain ⟨low, rest⟩ := later inside
              exact ⟨by omega, rest⟩
          · obtain ⟨low, rest⟩ := later member
            exact ⟨by omega, rest⟩

/-- What is found later begins behind what is found before. -/
theorem starts_apart (positive : 0 < width) (skip base : Nat) (text : List Symbol) :
    (starts test width skip base text).Pairwise fun earlier later => earlier + width ≤ later := by
  induction text generalizing skip base with
  | nil => cases skip <;> exact List.Pairwise.nil
  | cons symbol rest ih =>
      cases skip with
      | succ skip => exact ih skip (base + 1)
      | zero =>
          rw [starts]
          split
          · refine List.pairwise_cons.mpr ⟨?_, ih _ _⟩
            intro later member
            have behind := (mem_starts member).1
            omega
          · exact ih 0 (base + 1)

theorem found_or_covered {skip base offset : Nat} {text : List Symbol}
    (low : base + skip ≤ offset) (high : offset < base + text.length)
    (stands : test (text.drop (offset - base)) = true) :
    offset ∈ starts test width skip base text ∨
      ∃ before ∈ starts test width skip base text, before < offset ∧ offset < before + width := by
  induction text generalizing skip base with
  | nil =>
      rw [List.length_nil] at high
      omega
  | cons symbol rest ih =>
      have later : ∀ {skip : Nat}, base + 1 + skip ≤ offset →
          offset ∈ starts test width skip (base + 1) rest ∨
            ∃ before ∈ starts test width skip (base + 1) rest,
              before < offset ∧ offset < before + width := by
        intro skip above
        have step : offset - base = offset - (base + 1) + 1 := by omega
        rw [step, List.drop_succ_cons] at stands
        rw [List.length_cons] at high
        exact ih above (by omega) stands
      cases skip with
      | succ skip => exact later (by omega)
      | zero =>
          rw [starts]
          by_cases here : offset = base
          · rw [here, Nat.sub_self, List.drop_zero] at stands
            rw [if_pos stands]
            exact .inl (here ▸ List.mem_cons_self)
          · split
            · by_cases near : offset < base + width
              · exact .inr ⟨base, List.mem_cons_self, by omega, near⟩
              · rcases later (show base + 1 + (width - 1) ≤ offset by omega) with found | ⟨before, found, covers⟩
                · exact .inl (List.mem_cons_of_mem _ found)
                · exact .inr ⟨before, List.mem_cons_of_mem _ found, covers⟩
            · exact later (by omega)

theorem substitute_skip (test : List Symbol → Bool) (width : Nat)
    (replacement front back : List Symbol) :
    substitute test width replacement front.length (front ++ back) =
      substitute test width replacement 0 back := by
  induction front with
  | nil => rfl
  | cons symbol front ih => exact ih

end Search

/-! ## Texts -/

section Text

variable {Symbol : Type} [DecidableEq Symbol]

/-- Whether the needle stands at the offset. -/
def occursAt (needle text : List Symbol) (offset : Nat) : Bool :=
  offset < text.length && needle.isPrefixOf (text.drop offset)

/-- `str::match_indices`, for a needle that is not empty. -/
def matchIndices (needle text : List Symbol) : List Nat :=
  starts (needle.isPrefixOf ·) needle.length 0 0 text

/-- `str::replace`, for a needle that is not empty. -/
def replace (needle replacement text : List Symbol) : List Symbol :=
  substitute (needle.isPrefixOf ·) needle.length replacement 0 text

/-- At how many places the needle stands, also where they overlap. -/
def countOf (needle text : List Symbol) : Nat := text.tails.countP (needle.isPrefixOf ·)

theorem occursAt_of_mem {needle text : List Symbol} {offset : Nat}
    (member : offset ∈ matchIndices needle text) : occursAt needle text offset = true := by
  obtain ⟨-, high, found⟩ := mem_starts member
  rw [Nat.zero_add] at high
  rw [occursAt, decide_eq_true high, Bool.true_and]
  exact found

theorem matchIndices_sorted {needle : List Symbol} (nonempty : needle ≠ []) (text : List Symbol) :
    (matchIndices needle text).Pairwise (· < ·) := by
  have positive := List.length_pos_iff.mpr nonempty
  exact (starts_apart positive 0 0 text).imp fun apart => by omega

/-- Of two that are found, the later one begins behind the earlier one. -/
theorem matchIndices_apart {needle text : List Symbol} {before later : Nat}
    (first : before ∈ matchIndices needle text) (second : later ∈ matchIndices needle text)
    (earlier : before < later) : before + needle.length ≤ later := by
  by_cases positive : 0 < needle.length
  · have apart : (matchIndices needle text).Pairwise fun earlier later =>
        earlier + needle.length ≤ later := starts_apart positive 0 0 text
    have forward : (matchIndices needle text).Pairwise fun first second =>
        first < second → first + needle.length ≤ second := by
      refine apart.imp ?_
      intro first second behind earlier
      exact behind
    have backward : (matchIndices needle text).Pairwise
        (flip fun first second => first < second → first + needle.length ≤ second) := by
      refine apart.imp ?_
      intro second first behind earlier
      omega
    exact forward.forall_of_forall_of_flip (fun _ _ same => absurd same (Nat.lt_irrefl _))
      backward first second earlier
  · omega

theorem mem_matchIndices_or {needle text : List Symbol} {offset : Nat}
    (occurs : occursAt needle text offset = true) :
    offset ∈ matchIndices needle text ∨
      ∃ before ∈ matchIndices needle text, before < offset ∧ offset < before + needle.length := by
  rw [occursAt, Bool.and_eq_true, decide_eq_true_eq] at occurs
  exact found_or_covered (Nat.zero_le offset) (by omega) occurs.2

theorem countOf_cons (needle : List Symbol) (symbol : Symbol) (rest : List Symbol) :
    countOf needle (symbol :: rest) =
      (if needle.isPrefixOf (symbol :: rest) then 1 else 0) + countOf needle rest := by
  rw [countOf, List.tails_cons, List.countP_cons, Nat.add_comm]
  rfl

theorem replace_here {needle : List Symbol} (nonempty : needle ≠ [])
    (replacement back : List Symbol) :
    replace needle replacement (needle ++ back) =
      replacement ++ replace needle replacement back := by
  have stands : needle.isPrefixOf (needle ++ back) = true :=
    List.isPrefixOf_iff_prefix.mpr (List.prefix_append needle back)
  cases needle with
  | nil => exact absurd rfl nonempty
  | cons symbol inner =>
      rw [List.cons_append] at stands ⊢
      rw [replace, substitute, if_pos stands, List.length_cons, Nat.add_sub_cancel, substitute_skip]
      rfl

theorem countOf_append_le (needle front back : List Symbol) :
    countOf needle back ≤ countOf needle (front ++ back) := by
  induction front with
  | nil => exact Nat.le_refl _
  | cons symbol front ih =>
      rw [List.cons_append, countOf_cons]
      omega

/-- Where the needle does not stand the text is left alone. -/
theorem replace_append {needle replacement front back : List Symbol}
    (count : countOf needle (front ++ back) = countOf needle back) :
    replace needle replacement (front ++ back) = front ++ replace needle replacement back := by
  induction front with
  | nil => rfl
  | cons symbol front ih =>
      have later : countOf needle back ≤ countOf needle (front ++ back) :=
        countOf_append_le needle front back
      rw [List.cons_append, countOf_cons] at count
      split at count
      · omega
      · rename_i absent
        rw [Nat.zero_add] at count
        rw [List.cons_append, replace, substitute, if_neg absent, List.cons_append]
        exact congrArg (symbol :: ·) (ih count)

theorem countOf_nil {needle : List Symbol} (nonempty : needle ≠ []) : countOf needle [] = 0 := by
  cases needle with
  | nil => exact absurd rfl nonempty
  | cons symbol rest => rfl

end Text

end Kvist.Occurrences
