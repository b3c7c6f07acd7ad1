import Mathlib

/-!
# Sequential transducers

A transducer reads one input at a time, changes its state and may give out one output. When what it
gives out does not depend on the state, a whole run splits into a fold of the state and a selection
from the inputs; `foldl_or` evaluates that fold for a state that keeps the latest value it saw.
-/

namespace VertexGateway.Transducer

variable {σ ι ο : Type*}

/-- The state after all inputs, and the outputs in the order of the inputs that gave them. -/
def run (step : ι → σ → σ × Option ο) : List ι → σ → σ × List ο
  | [], state => (state, [])
  | input :: inputs, state =>
    let (state, output) := step input state
    let (state, outputs) := run step inputs state
    (state, output.toList ++ outputs)

theorem run_append (step : ι → σ → σ × Option ο) (first second : List ι) (state : σ) :
    run step (first ++ second) state =
      ((run step second (run step first state).1).1,
        (run step first state).2 ++ (run step second (run step first state).1).2) := by
  induction first generalizing state with
  | nil => rfl
  | cons input first ih => simp only [List.cons_append, run, ih, List.append_assoc]

theorem run_eq_of_separable {step : ι → σ → σ × Option ο} {update : σ → ι → σ}
    {output : ι → Option ο} (h : ∀ input state, step input state = (update state input, output input))
    (inputs : List ι) (state : σ) :
    run step inputs state = (inputs.foldl update state, inputs.filterMap output) := by
  induction inputs generalizing state with
  | nil => rfl
  | cons input inputs ih =>
    rw [run, h]
    simp only [ih, List.foldl_cons]
    cases houtput : output input <;> simp [houtput]

/-- Keeping the latest value seen ends with the last one there is. -/
theorem foldl_or (value : ι → Option ο) (inputs : List ι) (held : Option ο) :
    inputs.foldl (fun held input ↦ (value input).or held) held =
      ((inputs.filterMap value).getLast?).or held := by
  induction inputs generalizing held with
  | nil => rfl
  | cons input inputs ih =>
    rw [List.foldl_cons, ih]
    cases hvalue : value input with
    | none => simp [hvalue]
    | some seen =>
      rw [List.filterMap_cons_some hvalue, List.getLast?_cons, Option.some_or]
      cases (inputs.filterMap value).getLast? <;> rfl

end VertexGateway.Transducer
