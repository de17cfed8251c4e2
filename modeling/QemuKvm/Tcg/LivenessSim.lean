import QemuKvm.Tcg.Liveness

/-!
# What the ops mean, and that the liveness pass keeps it

tcg/README fixes what the pass may rely on, and `Interp` leaves open only
what each op computes:

* an op of `O` without `TCG_OPF_SIDE_EFFECTS` that has outputs computes them
  from its inputs and constants alone; any other reads and changes the world
  (guest memory and the CPU state outside the globals), and reads the
  globals too where it is `TCG_OPF_CALL_CLOBBER` or `TCG_OPF_BB_END`; only
  such an op leaves the basic block: to a label or out of the translation
  block, or, for a `TCG_OPF_CALL_CLOBBER` op, by an exception;
* a helper call reads its inputs; unless `TCG_CALL_CONST` it also reads the
  globals, and unless `TCG_CALL_PURE` as well it writes them and the world
  and may raise an exception;
* after the end of a basic block, and at a `set_label`, "the content of
  temporaries is destroyed, but local temporaries and globals are
  preserved"; a `discard` destroys its temp. A destroyed temp holds the
  interpretation's `junk`;
* `INDEX_op_end` generates no code and a translation block never reaches it:
  it ends with `exit_tb` or `goto_tb`. Reaching it, or a branch to a label no
  op sets, is `none`, like running out of fuel.

A run ends where an op leaves the translation block, with the world and the
globals. The proof that the pass keeps what a run computes is a lockstep
simulation of the original buffer by the one the pass leaves, in which the
two states agree on every temp that is not dead at the current op:

* `stepOp_sim` — one op, for each case of `laOp`;
* `run_sim` — a run, by induction on the fuel; a branch arrives at a
  `set_label`, where only globals and local temps are live;
* `tcgLivenessAnalysis_run` — the buffer the pass leaves computes what the
  original one computes, for every buffer whose ops read only temps of the
  context;
* `tcgLivenessAnalysis_deadArgs` — a bit of `op_dead_args` is a promise the
  register allocator may rely on: after the op the value of that temp is
  never read.
-/

namespace QemuKvm.Tcg.Liveness

open Function

variable {O V W : Type*}

/-- Where an op that ends a basic block sends control. -/
inductive Next where
  | fall
  | jump (label : ℕ)
  | exit
  deriving DecidableEq

/-- What an op with side effects does: its outputs, the world after it, and
where it sends control. -/
structure Effect (V W : Type*) where
  outs : List V
  world : W
  next : Next

/-- What a helper does: its results, the globals and the world after it,
and whether it raised an exception. -/
structure CallResult (V W : Type*) where
  rets : List V
  globals : ℕ → V
  world : W
  raised : Bool

/-- What each op of `O` and each helper computes. An op without side
effects reads its inputs and constants; an op with side effects reads also
the globals it may read (the empty list where it may read none) and the
world; a helper reads its inputs (the helper's address among them), the
globals and the world. -/
structure Interp (O V W : Type*) where
  pure : O → List V → List ℕ → List V
  effect : O → List V → List ℕ → List V → W → Effect V W
  call : List V → List V → W → CallResult V W
  junk : ℕ → V

/-- What one op leaves: the next op's state, a branch with its state, the
end of the translation block with the world and the globals, or nothing. -/
inductive Outcome (V W : Type*) where
  | next (temps : ℕ → V) (world : W)
  | jump (label : ℕ) (temps : ℕ → V) (world : W)
  | exit (world : W) (globals : List V)
  | stuck

/-! ## The meaning of an op -/

section Semantics

variable (s : TCGContext) (defs : O → TCGOpDef) (I : Interp O V W)

/-- The values of the globals. -/
def TCGContext.globals (temps : ℕ → V) : List V :=
  (List.range s.nbGlobals).map temps

/-- The temps with the globals a helper left. -/
def TCGContext.setGlobals (temps globals : ℕ → V) : ℕ → V := fun i =>
  if i < s.nbGlobals then globals i else temps i

/-- A temp of the translation block that is not local: its content does not
survive the end of a basic block. -/
def TCGContext.IsNormal (i : ℕ) : Prop :=
  s.nbGlobals ≤ i ∧ i < s.nbTemps ∧ s.tempLocal i = false

instance (i : ℕ) : Decidable (s.IsNormal i) :=
  inferInstanceAs (Decidable (s.nbGlobals ≤ i ∧ i < s.nbTemps ∧ s.tempLocal i = false))

/-- The temps after the end of a basic block. -/
def TCGContext.bbEndTemps (junk temps : ℕ → V) : ℕ → V := fun i =>
  if s.IsNormal i then junk i else temps i

/-- The outputs written with the op's results; an output the op gives no
result for holds junk. -/
def writeArgs (junk : ℕ → V) : List ℕ → List V → (ℕ → V) → ℕ → V
  | [], _, temps => temps
  | arg :: args, vals, temps => writeArgs junk args vals.tail (update temps arg (vals.headD (junk arg)))

/-- One op, from the temps and the world before it. -/
def stepOp (temps : ℕ → V) (w : W) : Op O → Outcome V W
  | .call oargs iargs flags =>
    let r := I.call ((iargs.filterMap id).map temps)
      (if flags &&& TCG_CALL_CONST ≠ 0 then [] else s.globals temps) w
    if flags &&& TCG_CALL_PURE ≠ 0 then .next (writeArgs I.junk oargs r.rets temps) w
    else if flags &&& TCG_CALL_CONST ≠ 0 then .next (writeArgs I.junk oargs r.rets temps) r.world
    else
      let temps' := s.setGlobals temps r.globals
      if r.raised then .exit r.world (s.globals temps')
      else .next (writeArgs I.junk oargs r.rets temps') r.world
  | .setLabel _ => .next (s.bbEndTemps I.junk temps) w
  | .debugInsnStart _ => .next temps w
  | .nop => .next temps w
  | .nopn _ => .next temps w
  | .discard arg => .next (update temps arg (I.junk arg)) w
  | .opEnd => .stuck
  | .op opc args =>
    let d := defs opc
    let ins := (d.iargs args).map temps
    let cargs := args.drop (d.nbOargs + d.nbIargs)
    let oargs := args.take d.nbOargs
    if d.sideEffects = false ∧ d.nbOargs ≠ 0 then
      .next (writeArgs I.junk oargs (I.pure opc ins cargs) temps) w
    else
      let r := I.effect opc ins cargs (if d.bbEnd || d.callClobber then s.globals temps else []) w
      if d.bbEnd then
        let temps' := s.bbEndTemps I.junk (writeArgs I.junk oargs r.outs temps)
        match r.next with
        | .fall => .next temps' r.world
        | .jump label => .jump label temps' r.world
        | .exit => .exit r.world (s.globals temps')
      -- an exception in the slow path of a `TCG_OPF_CALL_CLOBBER` op
      else if d.callClobber ∧ r.next = .exit then .exit r.world (s.globals temps)
      else .next (writeArgs I.junk oargs r.outs temps) r.world

/-- A run of the buffer from the op at `pc`, for at most `fuel` ops: the
world and the globals where the translation block is left. -/
def run : ℕ → List (Op O) → ℕ → (ℕ → V) → W → Option (W × List V)
  | 0, _, _, _, _ => none
  | fuel + 1, ops, pc, temps, w =>
    match ops[pc]? with
    | none => none
    | some op =>
      match stepOp s defs I temps w op with
      | .next temps' w' => run fuel ops (pc + 1) temps' w'
      | .jump label temps' w' =>
        match labelPos ops label with
        | some pc' => run fuel ops pc' temps' w'
        | none => none
      | .exit w' globals => some (w', globals)
      | .stuck => none

end Semantics

/-! ## Agreement on the live temps -/

/-- Two states of the temps agree on every temp the dead set does not mark. -/
def Agree (dead : ℕ → Bool) (t₁ t₂ : ℕ → V) : Prop :=
  ∀ t, dead t = false → t₁ t = t₂ t

theorem Agree.mono {dead dead' : ℕ → Bool} {t₁ t₂ : ℕ → V} (h : Agree dead t₁ t₂)
    (hle : ∀ t, dead' t = false → dead t = false) : Agree dead' t₁ t₂ :=
  fun t ht => h t (hle t ht)

theorem Agree.map_eq {dead : ℕ → Bool} {t₁ t₂ : ℕ → V} (h : Agree dead t₁ t₂) {l : List ℕ}
    (hl : ∀ t ∈ l, dead t = false) : l.map t₁ = l.map t₂ :=
  List.map_congr_left fun t ht => h t (hl t ht)

theorem Agree.globals_eq {s : TCGContext} {dead : ℕ → Bool} {t₁ t₂ : ℕ → V}
    (h : Agree dead t₁ t₂) (hg : ∀ t < s.nbGlobals, dead t = false) :
    s.globals t₁ = s.globals t₂ :=
  h.map_eq fun t ht => hg t (List.mem_range.mp ht)

section WriteArgs

variable {junk : ℕ → V}

theorem writeArgs_of_not_mem {args : List ℕ} {t : ℕ} (ht : t ∉ args) (vals : List V)
    (temps : ℕ → V) : writeArgs junk args vals temps t = temps t := by
  induction args generalizing vals temps with
  | nil => rfl
  | cons arg args ih =>
    rw [writeArgs, ih (fun h => ht (List.mem_cons_of_mem _ h)),
      update_of_ne (fun h => ht (by subst h; exact List.mem_cons_self))]

/-- What an output holds after the op does not depend on what it held. -/
theorem writeArgs_of_mem {args : List ℕ} {t : ℕ} (ht : t ∈ args) (vals : List V)
    (t₁ t₂ : ℕ → V) : writeArgs junk args vals t₁ t = writeArgs junk args vals t₂ t := by
  induction args generalizing vals t₁ t₂ with
  | nil => cases ht
  | cons arg args ih =>
    simp only [writeArgs]
    by_cases hm : t ∈ args
    · exact ih hm _ _ _
    · have : t = arg := by simpa [hm] using ht
      subst this
      simp [writeArgs_of_not_mem hm]

/-- Writing the outputs takes states that agree off the outputs and the
dead set to states that agree off the dead set. -/
theorem Agree.write_outputs {dead : ℕ → Bool} {args : List ℕ} {t₁ t₂ : ℕ → V}
    (h : Agree (fun t => decide (t ∈ args) || dead t) t₁ t₂) (vals : List V) :
    Agree dead (writeArgs junk args vals t₁) (writeArgs junk args vals t₂) := by
  intro t ht
  by_cases hm : t ∈ args
  · exact writeArgs_of_mem hm vals t₁ t₂
  · rw [writeArgs_of_not_mem hm, writeArgs_of_not_mem hm]
    exact h t (by simp [hm, ht])

/-- The same for a write whose outputs are all dead: it is not seen. -/
theorem Agree.write_dead {dead : ℕ → Bool} {args : List ℕ} {t₁ t₂ : ℕ → V}
    (h : Agree dead t₁ t₂) (hdead : ∀ t ∈ args, dead t = true) (vals : List V) :
    Agree dead (writeArgs junk args vals t₁) t₂ := by
  intro t ht
  have hm : t ∉ args := fun hm => by simp [hdead t hm] at ht
  rw [writeArgs_of_not_mem hm]
  exact h t ht

end WriteArgs

/-- The end of a basic block after the outputs are written, as the pass
sees it (it makes the outputs dead first): states that agree where
`tcg_la_bb_end` leaves a temp live come out agreeing on any dead set that
marks no temp at or above `nb_temps` the op does not write. -/
theorem Agree.bbEnd {s : TCGContext} {junk : ℕ → V} {dead dead' : ℕ → Bool}
    {args : List ℕ} {t₁ t₂ : ℕ → V}
    (h : Agree (tcgLaBbEnd s fun t => decide (t ∈ args) || dead t) t₁ t₂) (vals : List V)
    (hdead' : ∀ t, dead' t = false → s.nbTemps ≤ t → t ∉ args → dead t = false) :
    Agree dead' (s.bbEndTemps junk (writeArgs junk args vals t₁))
      (s.bbEndTemps junk (writeArgs junk args vals t₂)) := by
  intro t ht
  unfold TCGContext.bbEndTemps
  split_ifs with hn
  · rfl
  by_cases hm : t ∈ args
  · exact writeArgs_of_mem hm vals t₁ t₂
  · rw [writeArgs_of_not_mem hm, writeArgs_of_not_mem hm]
    apply h t
    rw [tcgLaBbEnd_eq_false]
    -- a temp that survives the end of the block is a global, a local temp,
    -- or one above `nb_temps` that the dead set leaves live
    simp only [TCGContext.IsNormal, not_and, Bool.not_eq_false] at hn
    by_cases hg : t < s.nbGlobals
    · exact .inl hg
    · by_cases hT : t < s.nbTemps
      · exact .inr (.inl ⟨hT, hn (by omega) hT⟩)
      · exact .inr (.inr ⟨by omega, by simp [hm, hdead' t ht (by omega) hm]⟩)

/-! ## One op -/

/-- How the outcomes of one op in the two runs correspond, given the dead
set after the op: the same control flow and world, and states that agree on
what is live where control goes (at a label, the globals and local temps). -/
def Outcome.Rel (s : TCGContext) (dead : ℕ → Bool) : Outcome V W → Outcome V W → Prop
  | .next t₁ w₁, .next t₂ w₂ => w₁ = w₂ ∧ Agree dead t₁ t₂
  | .jump l₁ t₁ w₁, .jump l₂ t₂ w₂ =>
    l₁ = l₂ ∧ w₁ = w₂ ∧ Agree (tcgLaBbEnd s fun _ => true) t₁ t₂
  | .exit w₁ g₁, .exit w₂ g₂ => w₁ = w₂ ∧ g₁ = g₂
  | .stuck, .stuck => True
  | _, _ => False

section Step

variable {s : TCGContext} {defs : O → TCGOpDef} {I : Interp O V W}

theorem stepOp_tcgSetNop (temps : ℕ → V) (w : W) (nbArgs : ℕ) :
    stepOp s defs I temps w (tcgSetNop nbArgs) = .next temps w := by
  unfold tcgSetNop
  split_ifs <;> rfl

theorem tcgLaBbEnd_true_globals {t : ℕ} (ht : t < s.nbGlobals) :
    tcgLaBbEnd s (fun _ => true) t = false := by
  simp [tcgLaBbEnd, ht]

/-- A helper call: removed when it is pure and its results are dead, since
it then changes nothing; kept, it reads the same inputs and globals in the
two runs. -/
theorem stepOp_sim_call (dead : ℕ → Bool) (oargs : List ℕ) (iargs : List (Option ℕ))
    (flags : ℕ) {t₁ t₂ : ℕ → V} (w : W)
    (h : Agree (laOp s defs dead (.call oargs iargs flags)).2 t₁ t₂) :
    Outcome.Rel s dead (stepOp s defs I t₁ w (.call oargs iargs flags))
      (stepOp s defs I t₂ w (laOp s defs dead (.call oargs iargs flags)).1.1) := by
  by_cases hrm : flags &&& TCG_CALL_PURE ≠ 0 ∧ oargs.all dead = true
  · -- removed: the original writes only dead outputs
    have h' : Agree dead t₁ t₂ := by rw [laOp, if_pos hrm] at h; exact h
    rw [laOp, if_pos hrm, stepOp_tcgSetNop]
    simp only [stepOp, if_pos hrm.1]
    exact ⟨rfl, h'.write_dead (fun t ht => List.all_eq_true.mp hrm.2 t ht) _⟩
  have hop : (laOp s defs dead (.call oargs iargs flags)).1.1 = .call oargs iargs flags := by
    rw [laOp, if_neg hrm]
  rw [hop]
  have hin : (iargs.filterMap id).map t₁ = (iargs.filterMap id).map t₂ :=
    h.map_eq fun t ht => laOp_call_live hrm (.inl (by simpa using ht))
  have hout : Agree (fun t => decide (t ∈ oargs) || dead t) t₁ t₂ :=
    h.mono fun t ht => laOp_call_live hrm (.inr (.inr (by simpa using ht)))
  simp only [stepOp, hin]
  by_cases hc : flags &&& TCG_CALL_CONST ≠ 0
  · -- a const helper reads no global
    simp only [if_pos hc]
    split_ifs <;> exact ⟨rfl, hout.write_outputs _⟩
  have hc' : flags &&& TCG_CALL_CONST = 0 := not_not.mp hc
  have hglob : s.globals t₁ = s.globals t₂ :=
    h.globals_eq fun t ht => laOp_call_live hrm (.inr (.inl ⟨hc', ht⟩))
  simp only [if_neg hc, hglob]
  split_ifs with hp hraise
  · exact ⟨rfl, hout.write_outputs _⟩
  · -- the helper raised: the globals are the ones it left
    refine ⟨rfl, List.map_congr_left fun t ht => ?_⟩
    simp [TCGContext.setGlobals, List.mem_range.mp ht]
  · refine ⟨rfl, Agree.write_outputs (fun t ht => ?_) _⟩
    unfold TCGContext.setGlobals
    split_ifs
    · rfl
    · exact hout t ht

/-- An op of `O`: removed when it has no side effect and its outputs are
dead; kept, it reads the same inputs, and the same globals where it may read
them, in the two runs. -/
theorem stepOp_sim_op (dead : ℕ → Bool) (opc : O) (args : List ℕ) {t₁ t₂ : ℕ → V} (w : W)
    (h : Agree (laOp s defs dead (.op opc args)).2 t₁ t₂) :
    Outcome.Rel s dead (stepOp s defs I t₁ w (.op opc args))
      (stepOp s defs I t₂ w (laOp s defs dead (.op opc args)).1.1) := by
  by_cases hrm : (defs opc).sideEffects = false ∧ (defs opc).nbOargs ≠ 0 ∧
      (args.take (defs opc).nbOargs).all dead = true
  · -- removed: the original computes only dead outputs
    have h' : Agree dead t₁ t₂ := by rw [laOp, if_pos hrm] at h; exact h
    rw [laOp, if_pos hrm, stepOp_tcgSetNop]
    simp only [stepOp, if_pos (And.intro hrm.1 hrm.2.1)]
    exact ⟨rfl, h'.write_dead (fun t ht => List.all_eq_true.mp hrm.2.2 t ht) _⟩
  have hop : (laOp s defs dead (.op opc args)).1.1 = .op opc args := by
    rw [laOp, if_neg hrm]
  rw [hop]
  have hins : ((defs opc).iargs args).map t₁ = ((defs opc).iargs args).map t₂ :=
    h.map_eq fun t ht => laOp_op_live hrm (.inl ht)
  simp only [stepOp, hins]
  by_cases hpure : (defs opc).sideEffects = false ∧ (defs opc).nbOargs ≠ 0
  · -- no side effect, some output live: the op is computed in both runs
    have hbb : (defs opc).bbEnd = false := by
      cases hb : (defs opc).bbEnd
      · rfl
      · simp [(defs opc).bbEnd_sideEffects hb] at hpure
    rw [if_pos hpure, if_pos hpure]
    exact ⟨rfl, Agree.write_outputs (h.mono fun t ht =>
      laOp_op_live hrm (.inr (.inr (.inl ⟨hbb, by simpa using ht⟩)))) _⟩
  rw [if_neg hpure, if_neg hpure]
  have hglob : ((defs opc).bbEnd || (defs opc).callClobber) = true →
      s.globals t₁ = s.globals t₂ := fun hbc =>
    h.globals_eq fun t ht => laOp_op_live hrm (.inr (.inl ⟨hbc, ht⟩))
  have hview : (if ((defs opc).bbEnd || (defs opc).callClobber) = true then s.globals t₁ else []) =
      (if ((defs opc).bbEnd || (defs opc).callClobber) = true then s.globals t₂ else []) := by
    split_ifs with hbc
    · exact hglob hbc
    · rfl
  rw [hview]
  generalize I.effect opc _ _ _ w = r
  by_cases hb : (defs opc).bbEnd = true
  · -- the end of a basic block: the normal temps are destroyed in both runs
    have hbe : Agree (tcgLaBbEnd s fun t =>
        decide (t ∈ args.take (defs opc).nbOargs) || dead t) t₁ t₂ :=
      h.mono fun t ht => laOp_op_live hrm (.inr (.inr (.inr ⟨hb, ht⟩)))
    have hjump : Agree (tcgLaBbEnd s fun _ => true)
        (s.bbEndTemps I.junk (writeArgs I.junk (args.take (defs opc).nbOargs) r.outs t₁))
        (s.bbEndTemps I.junk (writeArgs I.junk (args.take (defs opc).nbOargs) r.outs t₂)) :=
      hbe.bbEnd r.outs fun t ht hT _ => by
        have : ¬ t < s.nbGlobals := by have := s.nbGlobals_le; omega
        simp [tcgLaBbEnd, Nat.not_lt.mpr hT, this] at ht
    simp only [hb, if_true]
    cases r.next with
    | fall => exact ⟨rfl, hbe.bbEnd r.outs fun t ht _ _ => ht⟩
    | jump label => exact ⟨rfl, rfl, hjump⟩
    | exit => exact ⟨rfl, hjump.globals_eq fun t ht => tcgLaBbEnd_true_globals ht⟩
  have hb' : (defs opc).bbEnd = false := by simpa using hb
  simp only [hb', Bool.false_eq_true, if_false]
  split_ifs with hexit
  · -- an exception: the globals are live before a `TCG_OPF_CALL_CLOBBER` op
    exact ⟨rfl, hglob (by simp [hexit.1])⟩
  · exact ⟨rfl, Agree.write_outputs (h.mono fun t ht =>
      laOp_op_live hrm (.inr (.inr (.inl ⟨hb', by simpa using ht⟩)))) _⟩

/-- One op of the original buffer and the one the pass leaves in its place
take states that agree on what is live before it to outcomes that agree on
what is live after it. -/
theorem stepOp_sim (dead : ℕ → Bool) (op : Op O) {t₁ t₂ : ℕ → V} (w : W)
    (h : Agree (laOp s defs dead op).2 t₁ t₂) :
    Outcome.Rel s dead (stepOp s defs I t₁ w op) (stepOp s defs I t₂ w (laOp s defs dead op).1.1) := by
  cases op with
  | call oargs iargs flags => exact stepOp_sim_call dead oargs iargs flags w h
  | op opc args => exact stepOp_sim_op dead opc args w h
  | setLabel label =>
    have hk : (fun t => decide (t ∈ ([] : List ℕ)) || dead t) = dead := funext fun t => by simp
    have h' : Agree (tcgLaBbEnd s fun t => decide (t ∈ ([] : List ℕ)) || dead t) t₁ t₂ := by
      rw [hk]; exact h
    exact ⟨rfl, h'.bbEnd [] fun t ht _ _ => ht⟩
  | discard arg =>
    refine ⟨rfl, fun t ht => ?_⟩
    by_cases hta : t = arg
    · subst hta; simp
    · simp only [update_of_ne hta]
      exact h t (by simp [laOp, hta, ht])
  | debugInsnStart args => exact ⟨rfl, h⟩
  | nop => exact ⟨rfl, h⟩
  | nopn n => exact ⟨rfl, h⟩
  | opEnd => trivial

end Step

/-! ## Runs -/

section Run

variable {s : TCGContext} {defs : O → TCGOpDef} {I : Interp O V W}

theorem eq_setLabel_of_isLabel {op : Op O} {label : ℕ} (h : op.isLabel label = true) :
    op = .setLabel label := by
  cases op with
  | setLabel l =>
    have : l = label := by simpa [Op.isLabel] using h
    rw [this]
  | _ => simp [Op.isLabel] at h

theorem getElem_of_labelPos {ops : List (Op O)} {label pc : ℕ} (h : labelPos ops label = some pc) :
    ops[pc]? = some (.setLabel label) := by
  obtain ⟨hlt, hp, -⟩ := List.findIdx?_eq_some_iff_getElem.mp h
  rw [List.getElem?_eq_getElem hlt, eq_setLabel_of_isLabel hp]

/-- Where a branch arrives the pass has only the globals and the local
temps live: a `set_label` ends the basic block before it, and no temp at or
above `nb_temps` is ever live. -/
theorem deadBefore_label {ops : List (Op O)} (hops : InputsBelow s defs ops) {label pc : ℕ}
    (h : labelPos ops label = some pc) :
    deadBefore s defs ops pc = tcgLaBbEnd s fun _ => true := by
  rw [deadBefore_of_getElem (getElem_of_labelPos h)]
  funext t
  simp only [laOp, tcgLaBbEnd]
  split_ifs with hg hT
  · rfl
  · rfl
  · exact deadBefore_ge hops (pc + 1) (Nat.le_of_not_lt hT)

/-- The simulation: from states that agree on every temp not dead at `pc`,
the original buffer and the one the pass leaves reach the same end. By
induction on the fuel, one op at a time (`stepOp_sim`). -/
theorem run_sim {ops : List (Op O)} (hops : InputsBelow s defs ops) (fuel : ℕ) :
    ∀ pc (t₁ t₂ : ℕ → V) (w : W), Agree (deadBefore s defs ops pc) t₁ t₂ →
      run s defs I fuel ops pc t₁ w =
        run s defs I fuel ((tcgLivenessAnalysis s defs ops).map Prod.fst) pc t₂ w := by
  induction fuel with
  | zero => intros; rfl
  | succ fuel ih =>
    intro pc t₁ t₂ w h
    have hget : (tcgLivenessAnalysis s defs ops)[pc]? =
        ops[pc]?.map fun op => (laOp s defs (deadBefore s defs ops (pc + 1)) op).1 :=
      tcgLivenessAnalysis_getElem ops pc
    cases hop : ops[pc]? with
    | none =>
      have hQ : ((tcgLivenessAnalysis s defs ops).map Prod.fst)[pc]? = none := by
        simp [hget, hop]
      simp [run, hop, hQ]
    | some op =>
      have hQ : ((tcgLivenessAnalysis s defs ops).map Prod.fst)[pc]? =
          some (laOp s defs (deadBefore s defs ops (pc + 1)) op).1.1 := by
        simp [hget, hop]
      rw [deadBefore_of_getElem hop] at h
      have hrel := stepOp_sim (I := I) (deadBefore s defs ops (pc + 1)) op w h
      simp only [run, hop, hQ, labelPos_tcgLivenessAnalysis]
      generalize stepOp s defs I t₁ w op = o₁ at hrel ⊢
      generalize stepOp s defs I t₂ w _ = o₂ at hrel ⊢
      cases o₁ <;> cases o₂ <;> simp only [Outcome.Rel] at hrel
      case next.next t₁' w₁ t₂' w₂ =>
        obtain ⟨rfl, hag⟩ := hrel
        exact ih (pc + 1) t₁' t₂' w₁ hag
      case jump.jump l₁ t₁' w₁ l₂ t₂' w₂ =>
        -- a branch: both runs go to the same `set_label`
        obtain ⟨rfl, rfl, hag⟩ := hrel
        dsimp only
        cases hl : labelPos ops l₁ with
        | none => rfl
        | some q => exact ih q t₁' t₂' w₁ (by rw [deadBefore_label hops hl]; exact hag)
      case exit.exit w₁ g₁ w₂ g₂ =>
        obtain ⟨rfl, rfl⟩ := hrel
        rfl
      case stuck.stuck => rfl

/-- The liveness pass keeps what a translation block computes: from every
state, the buffer it leaves ends the block with the world and the globals
the original buffer ends it with, or both run out of fuel or get stuck
together. -/
theorem tcgLivenessAnalysis_run (s : TCGContext) (defs : O → TCGOpDef) (I : Interp O V W)
    (ops : List (Op O)) (hops : InputsBelow s defs ops) (fuel : ℕ) (temps : ℕ → V) (w : W) :
    run s defs I fuel ((tcgLivenessAnalysis s defs ops).map Prod.fst) 0 temps w =
      run s defs I fuel ops 0 temps w :=
  (run_sim hops fuel 0 temps temps w fun _ _ => rfl).symm

theorem tcgLivenessAnalysis_run_exitTb :
    let s : TCGContext := ⟨1, 4, fun _ => false, by decide⟩
    let add : TCGOpDef := ⟨1, 2, 0, false, false, false, fun h => h⟩
    let exitTb : TCGOpDef := ⟨0, 1, 0, true, false, true, fun _ => rfl⟩
    let ops : List (Op TCGOpDef) := [.op add [1, 0, 0], .op add [2, 1, 1], .op exitTb [1], .opEnd]
    let I : Interp TCGOpDef ℕ (List ℕ) := ⟨fun _ ins _ => [ins.sum],
      fun _ ins _ _ w => ⟨[], w ++ ins, .exit⟩, fun ins _ w => ⟨[ins.sum], fun _ => 0, w, false⟩,
      fun _ => 0⟩
    InputsBelow s id ops ∧
      run s id I 8 ((tcgLivenessAnalysis s id ops).map Prod.fst) 0 (fun _ => 3) [] =
        run s id I 8 ops 0 (fun _ => 3) [] :=
  ⟨by decide, tcgLivenessAnalysis_run _ id _ _ (by decide) 8 (fun _ => 3) []⟩

/-- A bit of `op_dead_args` for an op the pass keeps and that does not end
a basic block: whatever the temp holds after the op, the rest of the
translation block computes the same. The outputs of the op are distinct, and
an input the op also writes is not covered. -/
theorem tcgLivenessAnalysis_deadArgs {ops : List (Op O)} (hops : InputsBelow s defs ops)
    {pc : ℕ} {op : Op O} {deadArgs i t : ℕ}
    (hpc : (tcgLivenessAnalysis s defs ops)[pc]? = some (op, some deadArgs))
    (hbb : op.bbEnd defs = false) (hbit : deadArgs.testBit i = true)
    (harg : op.argTemp defs i = some t) (hnodup : (op.outputs defs).Nodup)
    (hin : t ∈ op.outputs defs → i < (op.outputs defs).length)
    (fuel : ℕ) (temps : ℕ → V) (v : V) (w : W) :
    run s defs I fuel ((tcgLivenessAnalysis s defs ops).map Prod.fst) (pc + 1) (update temps t v) w =
      run s defs I fuel ((tcgLivenessAnalysis s defs ops).map Prod.fst) (pc + 1) temps w := by
  rw [tcgLivenessAnalysis_getElem, Option.map_eq_some_iff] at hpc
  obtain ⟨op₀, -, hop⟩ := hpc
  have hdead : deadBefore s defs ops (pc + 1) t = true :=
    laOp_deadArgs hop hbb hbit harg hnodup hin
  have hag : Agree (deadBefore s defs ops (pc + 1)) temps (update temps t v) := fun u hu => by
    have hut : u ≠ t := fun h => by rw [h, hdead] at hu; cases hu
    rw [update_of_ne hut]
  rw [← run_sim hops fuel (pc + 1) temps _ w hag, ← run_sim hops fuel (pc + 1) temps temps w fun _ _ => rfl]

theorem tcgLivenessAnalysis_deadArgs_add :
    let s : TCGContext := ⟨1, 4, fun _ => false, by decide⟩
    let add : TCGOpDef := ⟨1, 2, 0, false, false, false, fun h => h⟩
    let exitTb : TCGOpDef := ⟨0, 1, 0, true, false, true, fun _ => rfl⟩
    let ops : List (Op TCGOpDef) := [.op add [1, 0, 0], .op add [2, 1, 1], .op exitTb [2], .opEnd]
    let I : Interp TCGOpDef ℕ (List ℕ) := ⟨fun _ ins _ => [ins.sum],
      fun _ ins _ _ w => ⟨[], w ++ ins, .exit⟩, fun ins _ w => ⟨[ins.sum], fun _ => 0, w, false⟩,
      fun _ => 0⟩
    InputsBelow s id ops ∧
      (tcgLivenessAnalysis s id ops)[1]? = some (.op add [2, 1, 1], some 2) ∧
      (Op.op add [2, 1, 1]).bbEnd id = false ∧ Nat.testBit 2 1 = true ∧
      (Op.op add [2, 1, 1]).argTemp id 1 = some 1 ∧ ((Op.op add [2, 1, 1]).outputs id).Nodup ∧
      (1 ∈ (Op.op add [2, 1, 1]).outputs id → 1 < ((Op.op add [2, 1, 1]).outputs id).length) ∧
      run s id I 8 ((tcgLivenessAnalysis s id ops).map Prod.fst) 2 (update (fun _ => 3) 1 7) [] =
        run s id I 8 ((tcgLivenessAnalysis s id ops).map Prod.fst) 2 (fun _ => 3) [] :=
  ⟨by decide, rfl, rfl, by decide, rfl, by decide, by decide,
    tcgLivenessAnalysis_deadArgs (i := 1) (t := 1) (by decide) (rfl : _ = some (_, some 2)) rfl
      (by decide) rfl (by decide) (by decide) 8 (fun _ => 3) 7 []⟩

end Run

end QemuKvm.Tcg.Liveness
