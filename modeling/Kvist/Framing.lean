import Mathlib.Data.List.Basic

/-!
# Encodings that say where they end

Concatenated encodings are read back in one way, if what follows an encoded value does not change
where it ends, and what follows the last of them does not begin like a further one.
-/

set_option autoImplicit false

namespace Kvist.Framing

variable {Value Symbol : Type}

/-- An encoded value is told from every other one, whatever follows. -/
def Delimits (Valid : Value → Prop) (encode : Value → List Symbol) : Prop :=
  ∀ value other rest more, Valid value → Valid other →
    encode value ++ rest = encode other ++ more → value = other ∧ rest = more

def Stops (Valid : Value → Prop) (encode : Value → List Symbol) (text : List Symbol) : Prop :=
  ∀ value rest, Valid value → text ≠ encode value ++ rest

theorem flatMap_unique {Valid : Value → Prop} {encode : Value → List Symbol}
    (delimits : Delimits Valid encode) {values others : List Value}
    (valid : ∀ value ∈ values, Valid value) (othersValid : ∀ value ∈ others, Valid value)
    {tail rest : List Symbol} (stops : Stops Valid encode tail) (restStops : Stops Valid encode rest)
    (whole : values.flatMap encode ++ tail = others.flatMap encode ++ rest) :
    values = others ∧ tail = rest := by
  induction values generalizing others with
  | nil =>
      cases others with
      | nil => exact ⟨rfl, whole⟩
      | cons other others =>
          rw [List.flatMap_nil, List.nil_append, List.flatMap_cons, List.append_assoc] at whole
          exact absurd whole (stops other _ (othersValid other List.mem_cons_self))
  | cons value values ih =>
      cases others with
      | nil =>
          rw [List.flatMap_nil, List.nil_append, List.flatMap_cons, List.append_assoc] at whole
          exact absurd whole.symm (restStops value _ (valid value List.mem_cons_self))
      | cons other others =>
          rw [List.flatMap_cons, List.flatMap_cons, List.append_assoc, List.append_assoc] at whole
          obtain ⟨rfl, remaining⟩ := delimits value other _ _ (valid value List.mem_cons_self)
            (othersValid other List.mem_cons_self) whole
          obtain ⟨rfl, same⟩ := ih (fun next member => valid next (List.mem_cons_of_mem _ member))
            (fun next member => othersValid next (List.mem_cons_of_mem _ member)) remaining
          exact ⟨rfl, same⟩

/-- Nothing is encoded as nothing, so the end is a stop. -/
theorem stops_nil {Valid : Value → Prop} {encode : Value → List Symbol}
    (nonempty : ∀ value, encode value ≠ []) : Stops Valid encode [] := by
  intro value rest _ same
  exact nonempty value (List.append_eq_nil_iff.mp same.symm).1

theorem delimits_header {Valid : List Symbol → Prop} {header : Nat → List Symbol} {width : Nat}
    (fixed : ∀ length, (header length).length = width)
    (told : ∀ value other, Valid value → Valid other →
      header value.length = header other.length → value.length = other.length) :
    Delimits Valid fun value => header value.length ++ value := by
  intro value other rest more valid otherValid whole
  rw [List.append_assoc, List.append_assoc] at whole
  obtain ⟨headers, bodies⟩ := List.append_inj whole (by rw [fixed, fixed])
  exact List.append_inj bodies (told value other valid otherValid headers)

end Kvist.Framing
