import Mathlib.Data.List.Basic
import Mathlib.Logic.Relation

/-!
# Runs of an input-driven machine

A machine here is a function `step : σ → ι → σ × ο`: from a state and an
input it gives the next state and an output. Every nondeterministic choice
of the environment (a socket that connects or not, a callback that returns
an error) is carried by the input, so the machine itself is a plain
function and a run is a fold over a list of inputs.

The rules below are the ones the component models use:

* `run_invariant` — an invariant that holds initially and is kept by every
  step holds after every run; `run_invariant_of_forall` is the same for
  runs whose inputs all have some property, `run_invariant_guarded` for
  runs whose inputs each have a property in the state they meet;
* `outputs_forall` — the same for what every step answers;
* `reflTransGen_invariant` — the invariant rule for a step relation;
* `run_take_succ` — the `k+1`-st state of a run is one step after the
  `k`-th, which is how a statement about one transition of a run is reached;
* `run_append` / `run_concat` — runs compose.

A machine that can stop (an assert that fails) is a function
`step : σ → ι → Option σ`, and a run is `List.foldlM step`:

* `foldlM_invariant` — if every step from an invariant state goes on and
  keeps the invariant, every run goes on to its end and keeps it;
* `foldlM_invariant_of_eq_some` — the invariant rule for the runs that do
  go on to their end.
-/

namespace QemuKvm

variable {σ ι ο : Type*}

/-- The state after feeding the inputs one by one. -/
def run (step : σ → ι → σ × ο) (s : σ) : List ι → σ
  | [] => s
  | i :: is => run step (step s i).1 is

/-- The outputs produced along a run, in order. -/
def outputs (step : σ → ι → σ × ο) (s : σ) : List ι → List ο
  | [] => []
  | i :: is => (step s i).2 :: outputs step (step s i).1 is

section
variable (step : σ → ι → σ × ο)

@[simp] theorem run_nil (s : σ) : run step s [] = s := rfl

@[simp] theorem run_cons (s : σ) (i : ι) (is : List ι) :
    run step s (i :: is) = run step (step s i).1 is := rfl

@[simp] theorem outputs_nil (s : σ) : outputs step s [] = [] := rfl

@[simp] theorem outputs_cons (s : σ) (i : ι) (is : List ι) :
    outputs step s (i :: is) = (step s i).2 :: outputs step (step s i).1 is := rfl

theorem run_append (s : σ) (xs ys : List ι) :
    run step s (xs ++ ys) = run step (run step s xs) ys := by
  induction xs generalizing s with
  | nil => rfl
  | cons i is ih => exact ih _

theorem run_concat (s : σ) (xs : List ι) (i : ι) :
    run step s (xs ++ [i]) = (step (run step s xs) i).1 := by
  rw [run_append]
  rfl

theorem length_outputs (s : σ) (is : List ι) : (outputs step s is).length = is.length := by
  induction is generalizing s with
  | nil => rfl
  | cons i is ih => simp [ih]

/-- Invariant rule: kept by every step, so kept by every run. -/
theorem run_invariant (inv : σ → Prop) (hstep : ∀ s i, inv s → inv (step s i).1)
    {s : σ} (hs : inv s) (is : List ι) : inv (run step s is) := by
  induction is generalizing s with
  | nil => exact hs
  | cons i is ih => exact ih (hstep s i hs)

/-- Invariant rule for runs whose inputs are all `ok`. -/
theorem run_invariant_of_forall (inv : σ → Prop) (ok : ι → Prop)
    (hstep : ∀ s i, ok i → inv s → inv (step s i).1) {s : σ} (hs : inv s) (is : List ι)
    (his : ∀ i ∈ is, ok i) : inv (run step s is) := by
  induction is generalizing s with
  | nil => exact hs
  | cons i is ih =>
    exact ih (hstep s i (his i List.mem_cons_self) hs) fun j hj => his j (List.mem_cons_of_mem i hj)

/-- Every input of the run satisfies ok in the state it is applied to. -/
def Guarded (ok : σ → ι → Prop) : σ → List ι → Prop
  | _, [] => True
  | s, i :: is => ok s i ∧ Guarded ok (step s i).1 is

instance Guarded.decidable (ok : σ → ι → Prop) [∀ s i, Decidable (ok s i)] :
    ∀ s is, Decidable (Guarded step ok s is)
  | _, [] => isTrue trivial
  | s, i :: is =>
    have := Guarded.decidable ok (step s i).1 is
    inferInstanceAs (Decidable (ok s i ∧ Guarded step ok (step s i).1 is))

/-- Invariant rule for runs whose inputs are each ok where they are applied. -/
theorem run_invariant_guarded (inv : σ → Prop) (ok : σ → ι → Prop)
    (hstep : ∀ s i, ok s i → inv s → inv (step s i).1) {s : σ} (hs : inv s) (is : List ι)
    (his : Guarded step ok s is) : inv (run step s is) := by
  induction is generalizing s with
  | nil => exact hs
  | cons i is ih => exact ih (hstep s i his.1 hs) his.2

/-- Output rule: if every step from an invariant state answers with an
output satisfying `P`, every output of a run from such a state does. -/
theorem outputs_forall (inv : σ → Prop) (ok : ι → Prop) (P : ο → Prop)
    (hstep : ∀ s i, ok i → inv s → inv (step s i).1) (hout : ∀ s i, ok i → inv s → P (step s i).2)
    {s : σ} (hs : inv s) (is : List ι) (his : ∀ i ∈ is, ok i) : ∀ o ∈ outputs step s is, P o := by
  induction is generalizing s with
  | nil => intro o ho; simp at ho
  | cons i is ih =>
    have hi := his i List.mem_cons_self
    intro o ho
    rcases List.mem_cons.mp ho with rfl | ho
    · exact hout s i hi hs
    · exact ih (hstep s i hi hs) (fun j hj => his j (List.mem_cons_of_mem i hj)) o ho

/-- The `(k+1)`-st state of a run is one step after the `k`-th. -/
theorem run_take_succ (s : σ) (is : List ι) (k : ℕ) (hk : k < is.length) :
    run step s (is.take (k + 1)) = (step (run step s (is.take k)) is[k]).1 := by
  rw [List.take_succ_eq_append_getElem hk, run_concat]

end

section Partial

variable (step : σ → ι → Option σ)

/-- Invariant rule for a machine that can stop: a run from an invariant
state never stops, and ends in an invariant state. -/
theorem foldlM_invariant (inv : σ → Prop)
    (hstep : ∀ s i, inv s → ∃ s', step s i = some s' ∧ inv s') {s : σ} (hs : inv s)
    (is : List ι) : ∃ s', is.foldlM step s = some s' ∧ inv s' := by
  induction is generalizing s with
  | nil => exact ⟨s, rfl, hs⟩
  | cons i is ih =>
    obtain ⟨s₁, h₁, hs₁⟩ := hstep s i hs
    simpa [List.foldlM_cons, h₁] using ih hs₁

/-- Invariant rule for the runs that go on to their end, whose inputs are all
`ok`. -/
theorem foldlM_invariant_of_eq_some (inv : σ → Prop) (ok : ι → Prop)
    (hstep : ∀ s i s', ok i → inv s → step s i = some s' → inv s') {s s' : σ} (hs : inv s)
    (is : List ι) (his : ∀ i ∈ is, ok i) (hrun : is.foldlM step s = some s') : inv s' := by
  induction is generalizing s with
  | nil =>
    cases hrun
    exact hs
  | cons i is ih =>
    rw [List.foldlM_cons] at hrun
    obtain ⟨s₁, h₁, hrest⟩ := Option.bind_eq_some_iff.mp hrun
    exact ih (hstep s i s₁ (his i List.mem_cons_self) hs h₁)
      (fun j hj => his j (List.mem_cons_of_mem i hj)) hrest

end Partial

/-- Invariant rule for a step relation: kept by every step, so kept along
every chain of steps. -/
theorem reflTransGen_invariant {r : σ → σ → Prop} (inv : σ → Prop)
    (hstep : ∀ s s', r s s' → inv s → inv s') {s s' : σ} (h : Relation.ReflTransGen r s s')
    (hs : inv s) : inv s' := by
  induction h with
  | refl => exact hs
  | tail _ hr ih => exact hstep _ _ hr ih

end QemuKvm
