import Mathlib.Logic.Function.Basic
import Mathlib.Data.Nat.Bitwise
import Mathlib.Data.List.Nodup

/-!
# The liveness pass of TCG

`tcg_liveness_analysis` (tcg/tcg.c) walks the op buffer from its last op
back to its first with `dead_temps`, one flag a temp, which says that the
value the temp holds at that point is never read again. At each op it

* replaces the op by a nop (`tcg_set_nop`) when its outputs are all dead and
  the op has no side effect: an op whose `TCGOpDef` lacks
  `TCG_OPF_SIDE_EFFECTS` and has outputs, or a call to a `TCG_CALL_PURE`
  helper;
* otherwise records in `op_dead_args` which of its arguments are dead after
  it, for the register allocator, and moves `dead_temps` back across it: the
  outputs become dead, then the globals live where the op may read them
  (`TCG_OPF_CALL_CLOBBER`, a call not `TCG_CALL_CONST`), every temp but the
  globals and the local temps dead where a basic block ends
  (`tcg_la_bb_end`), and last the inputs live.

The op buffer is modelled as a list of ops each with its own arguments
(`gen_opc_buf` and `gen_opparam_buf` read together), and the pass as a right
fold over it (`laOps`) whose accumulator is `dead_temps`: the dead set
before the op at position `pc` is the fold over the ops from `pc` on
(`deadBefore`). The opcodes other than the ones the pass names are a type
parameter with their `TCGOpDef`. This module proves what the fold computes:

* `laOutputs_dead`, `laInputs_dead` — the two loops over the arguments, as
  sets;
* `deadBefore_of_getElem` and `tcgLivenessAnalysis_getElem` — the pass at
  one position, from the dead set after it;
* `deadBefore_ge` — a temp at or above `nb_temps` is dead everywhere, given
  that no op reads one;
* `labelPos_tcgLivenessAnalysis` — the pass moves no label;
* `laOutputs_testBit`, `laInputs_testBit` — what a bit of `op_dead_args`
  says of the argument it stands for.

What the ops mean and that the pass keeps it is in `Tcg.LivenessSim`.
-/

namespace QemuKvm.Tcg.Liveness

open Function

variable {O : Type*}

/-! ## The op buffer -/

/-- `TCG_CALL_PURE`: the helper only reads its arguments and the globals. -/
def TCG_CALL_PURE : ℕ := 0x0010

/-- `TCG_CALL_CONST`: the helper does not use the globals. -/
def TCG_CALL_CONST : ℕ := 0x0020

/-- The part of `TCGOpDef` the pass reads: the numbers of output, input and
constant arguments and the flags `TCG_OPF_BB_END`, `TCG_OPF_CALL_CLOBBER`
and `TCG_OPF_SIDE_EFFECTS`. Every op of tcg/tcg-opc.h that ends a basic block
has side effects; the pass relies on it, as an op that ends a block but has
no side effect and an output would be taken for one it may remove. -/
structure TCGOpDef where
  nbOargs : ℕ
  nbIargs : ℕ
  nbCargs : ℕ
  bbEnd : Bool
  callClobber : Bool
  sideEffects : Bool
  bbEnd_sideEffects : bbEnd = true → sideEffects = true

/-- `nb_args`. -/
def TCGOpDef.nbArgs (d : TCGOpDef) : ℕ := d.nbOargs + d.nbIargs + d.nbCargs

/-- The part of `TCGContext` the pass reads: the globals are the temps below
`nb_globals`, the others below `nb_temps` are temps of the translation
block, each local (`temp_local`) or not. -/
structure TCGContext where
  nbGlobals : ℕ
  nbTemps : ℕ
  tempLocal : ℕ → Bool
  nbGlobals_le : nbGlobals ≤ nbTemps

/-- An op of the buffer with its arguments. A call has its outputs, then its
inputs, the last of which is the helper's address, with `none` for
`TCG_CALL_DUMMY_ARG` (the padding that aligns a 64-bit argument), then its
flags. Any other op not named here is an opcode of `O` with its arguments:
the outputs, the inputs and the constants, in that order. -/
inductive Op (O : Type*) where
  | call (oargs : List ℕ) (iargs : List (Option ℕ)) (flags : ℕ)
  | setLabel (label : ℕ)
  | debugInsnStart (args : List ℕ)
  | nop
  | nopn (nbArgs : ℕ)
  | discard (arg : ℕ)
  | opEnd
  | op (opc : O) (args : List ℕ)

/-- The input arguments of an op of `O`, after its `nb_oargs` outputs. -/
def TCGOpDef.iargs (d : TCGOpDef) (args : List ℕ) : List ℕ :=
  (args.drop d.nbOargs).take d.nbIargs

/-- The temps an op reads. -/
def Op.inputs (defs : O → TCGOpDef) : Op O → List ℕ
  | .call _ iargs _ => iargs.filterMap id
  | .op opc args => (defs opc).iargs args
  | _ => []

/-- The temps an op writes. -/
def Op.outputs (defs : O → TCGOpDef) : Op O → List ℕ
  | .call oargs _ _ => oargs
  | .op opc args => args.take (defs opc).nbOargs
  | _ => []

/-- The temp at position `i` of the arguments `op_dead_args` has a bit
for: the outputs, then the inputs. -/
def Op.argTemp (defs : O → TCGOpDef) : Op O → ℕ → Option ℕ
  | .call oargs iargs _, i => (oargs.map some ++ iargs)[i]?.join
  | .op opc args, i => if i < (defs opc).nbOargs + (defs opc).nbIargs then args[i]? else none
  | _, _ => none

/-- Whether an op ends a basic block. -/
def Op.bbEnd (defs : O → TCGOpDef) : Op O → Bool
  | .op opc _ => (defs opc).bbEnd
  | _ => false

/-- Whether an op is `set_label label`. -/
def Op.isLabel (label : ℕ) : Op O → Bool
  | .setLabel l => l == label
  | _ => false

/-- Where `set_label label` stands in the buffer: the op a branch to `label`
goes to. -/
def labelPos (ops : List (Op O)) (label : ℕ) : Option ℕ :=
  ops.findIdx? (Op.isLabel label)

/-! ## The pass -/

section Pass

variable (s : TCGContext) (defs : O → TCGOpDef)

/-- `tcg_set_nop`: the op becomes a `nop`, or a `nopn` that keeps the
number of its arguments so that the buffer can still be walked. -/
def tcgSetNop (nbArgs : ℕ) : Op O :=
  if nbArgs = 0 then .nop else .nopn nbArgs

/-- `tcg_la_bb_end`: at the end of a basic block the globals are live, the
local temps live and the other temps dead. -/
def tcgLaBbEnd (deadTemps : ℕ → Bool) : ℕ → Bool := fun i =>
  if i < s.nbGlobals then false else if i < s.nbTemps then !s.tempLocal i else deadTemps i

/-- `memset(dead_temps, 0, s->nb_globals)`: the globals are live. -/
def globalsLive (deadTemps : ℕ → Bool) : ℕ → Bool := fun i =>
  if i < s.nbGlobals then false else deadTemps i

/-- The loop over the output arguments: the bit of each that is dead after
the op, and the dead set with each of them dead. -/
def laOutputs : List ℕ → ℕ → ℕ → (ℕ → Bool) → ℕ × (ℕ → Bool)
  | [], _, deadArgs, deadTemps => (deadArgs, deadTemps)
  | arg :: args, i, deadArgs, deadTemps =>
    laOutputs args (i + 1) (if deadTemps arg then deadArgs ||| 1 <<< i else deadArgs)
      (update deadTemps arg true)

/-- The loop over the input arguments: the bit of each that is dead there,
and the dead set with each of them live; a `TCG_CALL_DUMMY_ARG` is skipped. -/
def laInputs : List (Option ℕ) → ℕ → ℕ → (ℕ → Bool) → ℕ × (ℕ → Bool)
  | [], _, deadArgs, deadTemps => (deadArgs, deadTemps)
  | none :: args, i, deadArgs, deadTemps => laInputs args (i + 1) deadArgs deadTemps
  | some arg :: args, i, deadArgs, deadTemps =>
    laInputs args (i + 1) (if deadTemps arg then deadArgs ||| 1 <<< i else deadArgs)
      (update deadTemps arg false)

/-- One op of `tcg_liveness_analysis`, from the dead set after it: the op it
leaves in the buffer with its `op_dead_args` (a `uint16_t`, `none` where the
pass writes none), and the dead set before it. -/
def laOp (deadTemps : ℕ → Bool) : Op O → (Op O × Option ℕ) × (ℕ → Bool)
  | .call oargs iargs flags =>
    -- a pure helper whose results are all dead is not called
    if flags &&& TCG_CALL_PURE ≠ 0 ∧ oargs.all deadTemps then
      ((tcgSetNop (oargs.length + iargs.length + 3), none), deadTemps)
    else
      let outs := laOutputs oargs 0 0 deadTemps
      let live := if flags &&& TCG_CALL_CONST = 0 then globalsLive s outs.2 else outs.2
      let ins := laInputs iargs oargs.length outs.1 live
      ((.call oargs iargs flags, some (ins.1 % 2 ^ 16)), ins.2)
  | .setLabel label => ((.setLabel label, none), tcgLaBbEnd s deadTemps)
  | .debugInsnStart args => ((.debugInsnStart args, none), deadTemps)
  | .nop => ((.nop, some 0), deadTemps)
  | .nopn n => ((.nopn n, none), deadTemps)
  | .discard arg => ((.discard arg, none), update deadTemps arg true)
  | .opEnd => ((.opEnd, none), deadTemps)
  | .op opc args =>
    let d := defs opc
    let oargs := args.take d.nbOargs
    if d.sideEffects = false ∧ d.nbOargs ≠ 0 ∧ oargs.all deadTemps then
      ((tcgSetNop d.nbArgs, none), deadTemps)
    else
      let outs := laOutputs oargs 0 0 deadTemps
      let live :=
        if d.bbEnd then tcgLaBbEnd s outs.2
        else if d.callClobber then globalsLive s outs.2 else outs.2
      let ins := laInputs ((d.iargs args).map some) d.nbOargs outs.1 live
      ((.op opc args, some (ins.1 % 2 ^ 16)), ins.2)

/-- The pass over a run of ops, from the dead set after the last: the ops it
leaves with their `op_dead_args`, and the dead set before the first. -/
def laOps : List (Op O) → (ℕ → Bool) → List (Op O × Option ℕ) × (ℕ → Bool)
  | [], deadTemps => ([], deadTemps)
  | op :: ops, deadTemps =>
    let rest := laOps ops deadTemps
    let here := laOp s defs rest.2 op
    (here.1 :: rest.1, here.2)

/-- `tcg_liveness_analysis`: every temp is dead after the last op (the
`INDEX_op_end` the buffer ends with). -/
def tcgLivenessAnalysis (ops : List (Op O)) : List (Op O × Option ℕ) :=
  (laOps s defs ops fun _ => true).1

/-- The dead set the pass reaches before the op at `pc`. -/
def deadBefore (ops : List (Op O)) (pc : ℕ) : ℕ → Bool :=
  (laOps s defs (ops.drop pc) fun _ => true).2

end Pass

/-! ## The two loops over the arguments -/

@[simp]
theorem laOutputs_dead (args : List ℕ) (i deadArgs : ℕ) (deadTemps : ℕ → Bool) (t : ℕ) :
    (laOutputs args i deadArgs deadTemps).2 t = (decide (t ∈ args) || deadTemps t) := by
  induction args generalizing i deadArgs deadTemps with
  | nil => simp [laOutputs]
  | cons arg args ih =>
    rw [laOutputs, ih]
    by_cases h : t = arg
    · subst h; simp
    · simp [h]

@[simp]
theorem laInputs_dead (args : List (Option ℕ)) (i deadArgs : ℕ) (deadTemps : ℕ → Bool) (t : ℕ) :
    (laInputs args i deadArgs deadTemps).2 t = (!decide (some t ∈ args) && deadTemps t) := by
  induction args generalizing i deadArgs deadTemps with
  | nil => simp [laInputs]
  | cons a args ih =>
    rcases a with _ | arg
    · simp [laInputs, ih]
    · rw [laInputs, ih]
      by_cases h : t = arg
      · subst h; simp
      · simp [h]

theorem tcgLaBbEnd_eq_false {s : TCGContext} {deadTemps : ℕ → Bool} {t : ℕ} :
    tcgLaBbEnd s deadTemps t = false ↔
      t < s.nbGlobals ∨ (t < s.nbTemps ∧ s.tempLocal t = true) ∨
        (s.nbTemps ≤ t ∧ deadTemps t = false) := by
  have := s.nbGlobals_le
  unfold tcgLaBbEnd
  by_cases hg : t < s.nbGlobals
  · simp [hg]
  · by_cases ht : t < s.nbTemps
    · simp [hg, ht]
    · simp [hg, ht, Nat.le_of_not_lt ht]

/-- A bit that the output loop sets stands for an output that was dead
before it: dead after the op, or an earlier output. -/
theorem laOutputs_testBit {args : List ℕ} {i deadArgs j : ℕ} {deadTemps : ℕ → Bool}
    (h : (laOutputs args i deadArgs deadTemps).1.testBit j) :
    deadArgs.testBit j ∨ ∃ k t, j = i + k ∧ args[k]? = some t ∧
      (deadTemps t = true ∨ t ∈ args.take k) := by
  induction args generalizing i deadArgs deadTemps with
  | nil => exact .inl h
  | cons arg args ih =>
    rcases ih h with hbit | ⟨k, t, rfl, hk, ht⟩
    · -- the bit is the one this output sets, or was set before
      by_cases hd : deadTemps arg = true
      · simp only [hd, if_true, Nat.testBit_or, Nat.testBit_shiftLeft] at hbit
        rcases Bool.or_eq_true_iff.mp hbit with hb | hb
        · exact .inl hb
        · right
          refine ⟨0, arg, ?_, rfl, .inl hd⟩
          simp only [Bool.and_eq_true, decide_eq_true_eq, Nat.testBit_one_eq_true_iff_self_eq_zero] at hb
          have : j - i = 0 := hb.2
          omega
      · simp only [hd, Bool.false_eq_true, if_false] at hbit
        exact .inl hbit
    · right
      refine ⟨k + 1, t, by omega, hk, ?_⟩
      rcases ht with ht | ht
      · by_cases h : t = arg
        · subst h; simp
        · simp [update_of_ne h] at ht; simp [ht]
      · simp [ht]

/-- A bit that the input loop sets stands for an input dead before the
loop and not an earlier input. -/
theorem laInputs_testBit {args : List (Option ℕ)} {i deadArgs j : ℕ} {deadTemps : ℕ → Bool}
    (h : (laInputs args i deadArgs deadTemps).1.testBit j) :
    deadArgs.testBit j ∨ ∃ k t, j = i + k ∧ args[k]? = some (some t) ∧ deadTemps t = true := by
  induction args generalizing i deadArgs deadTemps with
  | nil => exact .inl h
  | cons a args ih =>
    rcases a with _ | arg
    · rcases ih h with hbit | ⟨k, t, rfl, hk, ht⟩
      · exact .inl hbit
      · exact .inr ⟨k + 1, t, by omega, hk, ht⟩
    · rcases ih h with hbit | ⟨k, t, rfl, hk, ht⟩
      · by_cases hd : deadTemps arg = true
        · simp only [hd, if_true, Nat.testBit_or, Nat.testBit_shiftLeft] at hbit
          rcases Bool.or_eq_true_iff.mp hbit with hb | hb
          · exact .inl hb
          · right
            refine ⟨0, arg, ?_, rfl, hd⟩
            simp only [Bool.and_eq_true, decide_eq_true_eq, Nat.testBit_one_eq_true_iff_self_eq_zero] at hb
            have : j - i = 0 := hb.2
            omega
        · simp only [hd, Bool.false_eq_true, if_false] at hbit
          exact .inl hbit
      · refine .inr ⟨k + 1, t, by omega, hk, ?_⟩
        by_cases h : t = arg
        · subst h; simp at ht
        · simpa [update_of_ne h] using ht

/-! ## What the pass leaves live before an op it keeps -/

section Kept

variable {s : TCGContext} {defs : O → TCGOpDef} {deadTemps : ℕ → Bool}

theorem laOutputs_dead_eq (args : List ℕ) (i deadArgs : ℕ) :
    (laOutputs args i deadArgs deadTemps).2 = fun t => decide (t ∈ args) || deadTemps t :=
  funext (laOutputs_dead args i deadArgs deadTemps)

/-- Before a call the pass keeps, its inputs are live, the globals too
unless the helper is `TCG_CALL_CONST`, and every temp live after the call
that the call does not write. -/
theorem laOp_call_live {oargs : List ℕ} {iargs : List (Option ℕ)} {flags : ℕ}
    (hkeep : ¬(flags &&& TCG_CALL_PURE ≠ 0 ∧ oargs.all deadTemps = true)) {t : ℕ}
    (ht : some t ∈ iargs ∨ (flags &&& TCG_CALL_CONST = 0 ∧ t < s.nbGlobals) ∨
      (t ∉ oargs ∧ deadTemps t = false)) :
    (laOp s defs deadTemps (.call oargs iargs flags)).2 t = false := by
  rw [laOp, if_neg hkeep]
  simp only [laInputs_dead, Bool.and_eq_false_iff, Bool.not_eq_false', decide_eq_true_eq]
  rcases ht with hi | ⟨hc, hg⟩ | ⟨ho, hd⟩
  · exact .inl hi
  · exact .inr (by simp [hc, globalsLive, hg])
  · exact .inr (by split_ifs <;> simp [globalsLive, ho, hd])

/-- Before an op of `O` the pass keeps, its inputs are live, the globals too
where it ends a basic block or may call out, and: where it does not end a
basic block, every temp live after it that it does not write; where it does,
every temp `tcg_la_bb_end` leaves live. -/
theorem laOp_op_live {opc : O} {args : List ℕ}
    (hkeep : ¬((defs opc).sideEffects = false ∧ (defs opc).nbOargs ≠ 0 ∧
      (args.take (defs opc).nbOargs).all deadTemps = true)) {t : ℕ}
    (ht : t ∈ (defs opc).iargs args ∨
      (((defs opc).bbEnd || (defs opc).callClobber) = true ∧ t < s.nbGlobals) ∨
      ((defs opc).bbEnd = false ∧ t ∉ args.take (defs opc).nbOargs ∧ deadTemps t = false) ∨
      ((defs opc).bbEnd = true ∧
        tcgLaBbEnd s (fun u => decide (u ∈ args.take (defs opc).nbOargs) || deadTemps u) t = false)) :
    (laOp s defs deadTemps (.op opc args)).2 t = false := by
  rw [laOp, if_neg hkeep]
  simp only [laInputs_dead, laOutputs_dead_eq, Bool.and_eq_false_iff, Bool.not_eq_false',
    decide_eq_true_eq]
  rcases ht with hi | ⟨hbc, hg⟩ | ⟨hb, ho, hd⟩ | ⟨hb, hbe⟩
  · exact .inl (List.mem_map_of_mem hi)
  · refine .inr ?_
    rcases Bool.or_eq_true_iff.mp hbc with hb | hc
    · simp [hb, tcgLaBbEnd, hg]
    · split_ifs <;> simp [tcgLaBbEnd, globalsLive, hg]
  · exact .inr (by simp only [hb, Bool.false_eq_true, if_false]; split_ifs <;> simp [globalsLive, ho, hd])
  · exact .inr (by simpa [hb] using hbe)

end Kept

/-! ## What a bit of `op_dead_args` says -/

section DeadArgs

variable {s : TCGContext} {defs : O → TCGOpDef} {deadTemps : ℕ → Bool}

/-- A bit the two loops set stands for an output dead before the output
loop reached it, or an input dead before the input loop reached it. -/
theorem laArgs_testBit {oargs : List ℕ} {iargs : List (Option ℕ)} {n i : ℕ} {live : ℕ → Bool}
    (h : (laInputs iargs n (laOutputs oargs 0 0 deadTemps).1 live).1.testBit i = true) :
    (∃ u, oargs[i]? = some u ∧ (deadTemps u = true ∨ u ∈ oargs.take i)) ∨
      ∃ k u, i = n + k ∧ iargs[k]? = some (some u) ∧ live u = true := by
  rcases laInputs_testBit h with hout | hin
  · rcases laOutputs_testBit hout with hz | ⟨k, u, rfl, hk, hu⟩
    · simp at hz
    · exact .inl ⟨u, by simpa using hk, by simpa using hu⟩
  · exact .inr hin

theorem not_mem_take_of_nodup {l : List ℕ} (hl : l.Nodup) {k u : ℕ} (hk : l[k]? = some u) :
    u ∉ l.take k := by
  intro hm
  obtain ⟨j, hj, hju⟩ := List.mem_iff_getElem.mp hm
  obtain ⟨hkl, rfl⟩ := List.getElem?_eq_some_iff.mp hk
  have hjk : j < k := by rw [List.length_take] at hj; omega
  rw [List.getElem_take] at hju
  have := hl.getElem_inj_iff.mp hju
  omega

/-- The register allocator's reading of `op_dead_args`: where the pass
keeps an op that does not end a basic block and sets the bit of one of its
arguments, the temp there is dead after the op, unless it is an input the op
also writes (its old value is then dead, not the temp). The outputs of an op
are distinct; the output loop checks a repeated one after marking it dead. -/
theorem laOp_deadArgs {op₀ op : Op O} {deadArgs i t : ℕ}
    (hop : (laOp s defs deadTemps op₀).1 = (op, some deadArgs)) (hbb : op.bbEnd defs = false)
    (hbit : deadArgs.testBit i = true) (harg : op.argTemp defs i = some t)
    (hnodup : (op.outputs defs).Nodup) (hin : t ∈ op.outputs defs → i < (op.outputs defs).length) :
    deadTemps t = true := by
  cases op₀ with
  | call oargs iargs flags =>
    by_cases hrm : flags &&& TCG_CALL_PURE ≠ 0 ∧ oargs.all deadTemps = true
    · rw [laOp, if_pos hrm] at hop; cases hop
    rw [laOp, if_neg hrm] at hop
    simp only [Prod.mk.injEq, Option.some.injEq] at hop
    obtain ⟨rfl, rfl⟩ := hop
    simp only [Op.argTemp] at harg
    simp only [Op.outputs] at hnodup hin
    rw [Nat.testBit_mod_two_pow, Bool.and_eq_true] at hbit
    rcases laArgs_testBit hbit.2 with ⟨u, hu, hd⟩ | ⟨k, u, rfl, hk, hlive⟩
    · -- an output: the outputs are distinct, so it was dead after the call
      have hi : i < oargs.length := (List.getElem?_eq_some_iff.mp hu).1
      rw [List.getElem?_append_left (by simpa using hi), List.getElem?_map, hu] at harg
      cases harg
      exact hd.resolve_right (not_mem_take_of_nodup hnodup hu)
    · -- an input: live before the input loop only as a global or as live
      -- after the call, and not an output
      rw [List.getElem?_append_right (by simp), List.length_map, Nat.add_sub_cancel_left, hk] at harg
      cases harg
      have hmid : decide (t ∈ oargs) || deadTemps t := by
        split_ifs at hlive <;> simp_all [globalsLive]
      have hno : t ∉ oargs := fun hm => by have := hin hm; omega
      simpa [hno] using hmid
  | op opc args =>
    by_cases hrm : (defs opc).sideEffects = false ∧ (defs opc).nbOargs ≠ 0 ∧
        (args.take (defs opc).nbOargs).all deadTemps = true
    · rw [laOp, if_pos hrm] at hop; cases hop
    rw [laOp, if_neg hrm] at hop
    simp only [Prod.mk.injEq, Option.some.injEq] at hop
    obtain ⟨rfl, rfl⟩ := hop
    simp only [Op.bbEnd] at hbb
    simp only [Op.argTemp] at harg
    simp only [Op.outputs] at hnodup hin
    rw [Nat.testBit_mod_two_pow, Bool.and_eq_true] at hbit
    split_ifs at harg with hlt
    rcases laArgs_testBit hbit.2 with ⟨u, hu, hd⟩ | ⟨k, u, rfl, hk, hlive⟩
    · -- an output
      have hi : i < (defs opc).nbOargs := by
        have := (List.getElem?_eq_some_iff.mp hu).1; rw [List.length_take] at this; omega
      rw [List.getElem?_take_of_lt hi, harg] at hu
      cases hu
      exact hd.resolve_right (not_mem_take_of_nodup hnodup (by rw [List.getElem?_take_of_lt hi]; exact harg))
    · -- an input
      simp only [List.getElem?_map, Option.map_eq_some_iff, Option.some.injEq, exists_eq_right,
        TCGOpDef.iargs, List.getElem?_take, List.getElem?_drop] at hk
      split_ifs at hk
      rw [hk] at harg
      cases harg
      have hmid : decide (t ∈ args.take (defs opc).nbOargs) || deadTemps t := by
        simp only [hbb, Bool.false_eq_true, if_false] at hlive
        split_ifs at hlive <;> simp_all [globalsLive]
      have hno : t ∉ args.take (defs opc).nbOargs := fun hm => by
        have := hin hm; rw [List.length_take] at this; omega
      simpa [hno] using hmid
  | nop =>
    simp only [laOp, Prod.mk.injEq, Option.some.injEq] at hop
    rw [← hop.2] at hbit
    simp at hbit
  | _ => simp [laOp] at hop

end DeadArgs

/-! ## The pass at one position -/

section Position

variable {s : TCGContext} {defs : O → TCGOpDef}

theorem laOps_drop (ops : List (Op O)) (deadTemps : ℕ → Bool) (pc : ℕ) :
    (laOps s defs ops deadTemps).1.drop pc = (laOps s defs (ops.drop pc) deadTemps).1 := by
  induction ops generalizing pc with
  | nil => simp [laOps]
  | cons op ops ih =>
    cases pc with
    | zero => rfl
    | succ pc => simp [laOps, ih]

theorem length_laOps (ops : List (Op O)) (deadTemps : ℕ → Bool) :
    (laOps s defs ops deadTemps).1.length = ops.length := by
  induction ops with
  | nil => rfl
  | cons op ops ih => simp [laOps, ih]

/-- The dead set before an op is the pass's step over it from the dead set
after it. -/
theorem deadBefore_of_getElem {ops : List (Op O)} {pc : ℕ} {op : Op O} (h : ops[pc]? = some op) :
    deadBefore s defs ops pc = (laOp s defs (deadBefore s defs ops (pc + 1)) op).2 := by
  obtain ⟨hlt, rfl⟩ := List.getElem?_eq_some_iff.mp h
  rw [deadBefore, List.drop_eq_getElem_cons hlt]
  rfl

/-- What the pass leaves at position `pc` is its step over the op there from
the dead set after it. -/
theorem tcgLivenessAnalysis_getElem (ops : List (Op O)) (pc : ℕ) :
    (tcgLivenessAnalysis s defs ops)[pc]? =
      ops[pc]?.map fun op => (laOp s defs (deadBefore s defs ops (pc + 1)) op).1 := by
  by_cases hlt : pc < ops.length
  · have hd : (laOps s defs ops fun _ => true).1.drop pc =
        (laOps s defs (ops.drop pc) fun _ => true).1 := laOps_drop ops _ pc
    rw [List.drop_eq_getElem_cons hlt] at hd
    rw [List.getElem?_eq_getElem hlt, Option.map_some, tcgLivenessAnalysis,
      ← List.head?_drop, hd]
    rfl
  · have hle : ops.length ≤ pc := Nat.le_of_not_lt hlt
    rw [List.getElem?_eq_none hle, List.getElem?_eq_none]
    · rfl
    · simpa [tcgLivenessAnalysis, length_laOps] using hle

theorem isLabel_tcgSetNop (nbArgs label : ℕ) : (tcgSetNop nbArgs : Op O).isLabel label = false := by
  unfold tcgSetNop
  split_ifs <;> rfl

/-- The pass leaves each op where it is, or a nop in its place. -/
theorem laOp_fst (deadTemps : ℕ → Bool) (op : Op O) :
    (laOp s defs deadTemps op).1.1 = op ∨ ∃ n, (laOp s defs deadTemps op).1.1 = tcgSetNop n := by
  cases op with
  | call oargs iargs flags =>
    by_cases h : flags &&& TCG_CALL_PURE ≠ 0 ∧ oargs.all deadTemps = true
    · exact .inr ⟨_, by rw [laOp, if_pos h]⟩
    · exact .inl (by rw [laOp, if_neg h])
  | op opc args =>
    by_cases h : (defs opc).sideEffects = false ∧ (defs opc).nbOargs ≠ 0 ∧
        (args.take (defs opc).nbOargs).all deadTemps = true
    · exact .inr ⟨_, by rw [laOp, if_pos h]⟩
    · exact .inl (by rw [laOp, if_neg h])
  | _ => exact .inl rfl

/-- The pass leaves a `set_label` where it is, and puts no other one
anywhere. -/
theorem isLabel_laOp (deadTemps : ℕ → Bool) (op : Op O) (label : ℕ) :
    (laOp s defs deadTemps op).1.1.isLabel label = op.isLabel label := by
  rcases laOp_fst deadTemps op with h | ⟨n, h⟩
  · rw [h]
  · rw [h, isLabel_tcgSetNop]
    -- a `set_label` is never replaced
    cases op with
    | setLabel l =>
      unfold tcgSetNop at h
      split_ifs at h <;> cases h
    | _ => rfl

theorem labelPos_tcgLivenessAnalysis (ops : List (Op O)) (label : ℕ) :
    labelPos ((tcgLivenessAnalysis s defs ops).map Prod.fst) label = labelPos ops label := by
  unfold labelPos tcgLivenessAnalysis
  induction ops with
  | nil => rfl
  | cons op ops ih =>
    simp only [laOps, List.map_cons, List.findIdx?_cons, isLabel_laOp, ih]

/-! ## Temps above `nb_temps` -/

/-- No op reads a temp at or above `nb_temps`. -/
def InputsBelow (s : TCGContext) (defs : O → TCGOpDef) (ops : List (Op O)) : Prop :=
  ∀ op ∈ ops, ∀ t ∈ op.inputs defs, t < s.nbTemps

instance (s : TCGContext) (defs : O → TCGOpDef) (ops : List (Op O)) :
    Decidable (InputsBelow s defs ops) :=
  inferInstanceAs (Decidable (∀ op ∈ ops, ∀ t ∈ op.inputs defs, t < s.nbTemps))

/-- One op of the pass keeps a temp at or above `nb_temps` dead when the op
does not read it. -/
theorem laOp_dead_ge {deadTemps : ℕ → Bool} {op : Op O} {t : ℕ} (ht : s.nbTemps ≤ t)
    (hin : t ∉ op.inputs defs) (hd : deadTemps t = true) :
    (laOp s defs deadTemps op).2 t = true := by
  have hg : ¬ t < s.nbGlobals := by have := s.nbGlobals_le; omega
  cases op with
  | call oargs iargs flags =>
    have : some t ∉ iargs := fun h => hin (List.mem_filterMap.mpr ⟨some t, h, rfl⟩)
    simp only [laOp]
    split_ifs <;> simp [globalsLive, hg, hd, this]
  | op opc args =>
    have : t ∉ (defs opc).iargs args := hin
    simp only [laOp]
    split_ifs <;> simp [tcgLaBbEnd, globalsLive, hg, hd, this, Nat.not_lt.mpr ht]
  | setLabel => simp [laOp, tcgLaBbEnd, hg, Nat.not_lt.mpr ht, hd]
  | discard arg => by_cases h : t = arg <;> simp [laOp, h, hd]
  | _ => exact hd

theorem laOps_dead_ge {ops : List (Op O)} (hops : InputsBelow s defs ops) {t : ℕ}
    (ht : s.nbTemps ≤ t) : (laOps s defs ops fun _ => true).2 t = true := by
  induction ops with
  | nil => rfl
  | cons op ops ih =>
    have hin : t ∉ op.inputs defs := fun h => absurd (hops op List.mem_cons_self t h) (by omega)
    exact laOp_dead_ge ht hin (ih fun op' h' => hops op' (List.mem_cons_of_mem _ h'))

theorem deadBefore_ge {ops : List (Op O)} (hops : InputsBelow s defs ops) (pc : ℕ) {t : ℕ}
    (ht : s.nbTemps ≤ t) : deadBefore s defs ops pc t = true :=
  laOps_dead_ge (fun op h => hops op (List.mem_of_mem_drop h)) ht

end Position

end QemuKvm.Tcg.Liveness
