import Mathlib.Data.Nat.ModEq
import Mathlib.Data.Finset.Card
import QemuKvm.Lib.LinkedCycle
import QemuKvm.Lib.Run

/-!
# Copy classes of the TCG optimizer

`tcg_constant_folding` (tcg/optimize.c) walks the ops of a translation
block once and keeps, for every temp, what it knows of the temp's value in
the array `temps` of `struct tcg_temp_info`:

* `TCG_TEMP_CONST`: the temp holds `val`;
* `TCG_TEMP_COPY` / `TCG_TEMP_HAS_COPY`: the temp is in a class of temps
  that hold the same value. The members of a class are linked into a
  doubly-linked cycle through `next_copy` / `prev_copy`; the one member that
  is `HAS_COPY` represents the class and every `COPY` member names it in
  `val`, so that copy propagation can read a `COPY` argument as its
  representative.

This module models the three routines that change these classes —
`reset_temp` (`resetTemp`), `tcg_opt_gen_mov` (`tcgOptGenMov`) and
`tcg_opt_gen_movi` (`tcgOptGenMovi`) — and, as `TempOp`, what each op of
the block does to the temps as `tcg_constant_folding` handles it: an op
whose result it does not know resets its output, a move links its output
into the class of its input, a constant sets it, and a label or a branch
clears the array.

The array is kept as one function per field (`TcgTemps`). An assert of the
source is `none`; so is a walk of `reset_temp` that does not come back to
its start within `nb_temps` steps (the source would loop there). The two
arguments both movers write to `gen_args` are their own arguments and are
left out; they belong to the rewritten op stream.

The results:

* `CopyInv` is the invariant: every `HAS_COPY` temp heads a cycle of at
  least one `COPY` of it, every `COPY` temp is in the cycle of the temp its
  `val` names, and no global is in a cycle. `copyInv_resetTemp`,
  `copyInv_tcgOptGenMov` and `copyInv_tcgOptGenMovi` keep it (the mover for
  distinct arguments), and `copyInv_runTempOps` carries it over every run of
  a block. `resetTemp` always returns on a state that has it.
* `tcgOptGenMov_self` — a move of a temp to itself leaves a `COPY` of itself
  on a cycle of one; every caller turns such a move into a nop first.
* `Agrees` says that the values the temps hold at run time are what the
  optimizer believes, in the low bits of each temp's type. With the
  invariant and `SameType` (a copy has its representative's type) it makes
  `Sound`, which every run whose moves stay within one type keeps
  (`sound_runTempOps`). The
  moves `tcg_gen_trunc_i64_i32` emits on a 64-bit host go from an `i64`
  temp to an `i32` one, and `tcg_opt_gen_mov` does not look at types:
  `truncMov_copy_disagrees` runs three such ops and ends with an `i64` temp
  recorded as a copy of an `i32` one whose value differs from it.
-/

namespace QemuKvm.Tcg

open Function LinkedCycle

/-- `tcg_temp_state`. -/
inductive TcgTempState where
  | undef
  | const
  | copy
  | hasCopy
  | any
  deriving DecidableEq, Repr

/-- The two states of a member of a copy class. -/
def TcgTempState.inClass : TcgTempState → Bool
  | .copy | .hasCopy => true
  | _ => false

/-- The array `temps` of `struct tcg_temp_info`, one function per field. -/
structure TcgTemps where
  state : ℕ → TcgTempState
  prevCopy : ℕ → ℕ
  nextCopy : ℕ → ℕ
  val : ℕ → ℕ

namespace TcgTemps

/-- `memset(temps, 0, nb_temps * sizeof(struct tcg_temp_info))`: every temp
`TCG_TEMP_UNDEF`. -/
def cleared : TcgTemps :=
  ⟨fun _ => .undef, fun _ => 0, fun _ => 0, fun _ => 0⟩

/-- `temps[i].state = s`. -/
def setState (temps : TcgTemps) (i : ℕ) (s : TcgTempState) : TcgTemps :=
  { temps with state := update temps.state i s }

/-- `temps[i].val = v`. -/
def setVal (temps : TcgTemps) (i v : ℕ) : TcgTemps :=
  { temps with val := update temps.val i v }

/-- `temps[i].next_copy = n`. -/
def setNextCopy (temps : TcgTemps) (i n : ℕ) : TcgTemps :=
  { temps with nextCopy := update temps.nextCopy i n }

/-- `temps[i].prev_copy = p`. -/
def setPrevCopy (temps : TcgTemps) (i p : ℕ) : TcgTemps :=
  { temps with prevCopy := update temps.prevCopy i p }

variable (temps : TcgTemps) (i n : ℕ) (s : TcgTempState)

@[simp] theorem setState_state : (temps.setState i s).state = update temps.state i s := rfl
@[simp] theorem setState_val : (temps.setState i s).val = temps.val := rfl
@[simp] theorem setState_nextCopy : (temps.setState i s).nextCopy = temps.nextCopy := rfl
@[simp] theorem setState_prevCopy : (temps.setState i s).prevCopy = temps.prevCopy := rfl
@[simp] theorem setVal_state : (temps.setVal i n).state = temps.state := rfl
@[simp] theorem setVal_val : (temps.setVal i n).val = update temps.val i n := rfl
@[simp] theorem setVal_nextCopy : (temps.setVal i n).nextCopy = temps.nextCopy := rfl
@[simp] theorem setVal_prevCopy : (temps.setVal i n).prevCopy = temps.prevCopy := rfl
@[simp] theorem setNextCopy_state : (temps.setNextCopy i n).state = temps.state := rfl
@[simp] theorem setNextCopy_val : (temps.setNextCopy i n).val = temps.val := rfl
@[simp] theorem setNextCopy_nextCopy :
    (temps.setNextCopy i n).nextCopy = update temps.nextCopy i n := rfl
@[simp] theorem setNextCopy_prevCopy : (temps.setNextCopy i n).prevCopy = temps.prevCopy := rfl
@[simp] theorem setPrevCopy_state : (temps.setPrevCopy i n).state = temps.state := rfl
@[simp] theorem setPrevCopy_val : (temps.setPrevCopy i n).val = temps.val := rfl
@[simp] theorem setPrevCopy_nextCopy : (temps.setPrevCopy i n).nextCopy = temps.nextCopy := rfl
@[simp] theorem setPrevCopy_prevCopy :
    (temps.setPrevCopy i n).prevCopy = update temps.prevCopy i n := rfl

end TcgTemps

open TcgTemps

/-! ## The routines -/

/-- The two writes of `reset_temp` that take `temp` out of its cycle, each
reading the array as the one before it left it. -/
def unlinkTemp (temps : TcgTemps) (temp : ℕ) : TcgTemps :=
  let temps := temps.setPrevCopy (temps.nextCopy temp) (temps.prevCopy temp)
  temps.setNextCopy (temps.prevCopy temp) (temps.nextCopy temp)

/-- The end of `reset_temp`: `temp` becomes `TCG_TEMP_ANY`, and so does a
new base that is left alone in its cycle. -/
def resetTempTail (temps : TcgTemps) (temp : ℕ) (newBase : Option ℕ) : TcgTemps :=
  let temps := temps.setState temp .any
  match newBase with
  | some b => if temps.nextCopy b = b then temps.setState b .any else temps
  | none => temps

/-- `reset_temp`: forget what is known of `temp`. If `temp` represented a
class, its first non-global member becomes the representative and every
member names it (if there is no such member, every member is `ANY`); a
`COPY` leaves its class. -/
def resetTemp (temps : TcgTemps) (temp nbTemps nbGlobals : ℕ) : Option TcgTemps :=
  match temps.state temp with
  | .hasCopy => do
    -- the values `i` takes in both loops: neither loop writes a `next_copy`
    let members ← LinkedCycle.walk temps.nextCopy temp nbTemps (temps.nextCopy temp)
    let newBase := members.find? (nbGlobals ≤ ·)
    let temps := match newBase with
      | some b => temps.setState b .hasCopy
      | none => temps
    let temps := members.foldl (fun temps i => match newBase with
      | none => temps.setState i .any
      | some b => temps.setVal i b) temps
    pure (resetTempTail (unlinkTemp temps temp) temp newBase)
  | .copy => pure (resetTempTail (unlinkTemp temps temp) temp (some (temps.val temp)))
  | _ => pure (resetTempTail temps temp none)

/-- The first block of `tcg_opt_gen_mov`'s copy case: `src` becomes the
representative of a class of its own if it is not one. -/
def makeRep (temps : TcgTemps) (src : ℕ) : TcgTemps :=
  if temps.state src ≠ .hasCopy then
    ((temps.setState src .hasCopy).setNextCopy src src).setPrevCopy src src
  else temps

/-- The rest of it: `dst` becomes a `COPY` of `src`, linked in right after
`src` in its cycle. -/
def spliceCopy (temps : TcgTemps) (dst src : ℕ) : TcgTemps :=
  let temps := temps.setState dst .copy
  let temps := temps.setVal dst src
  let temps := temps.setNextCopy dst (temps.nextCopy src)
  let temps := temps.setPrevCopy dst src
  let temps := temps.setPrevCopy (temps.nextCopy dst) dst
  temps.setNextCopy src dst

/-- `tcg_opt_gen_mov`: `dst` becomes a copy of `src` unless one of them is a
global or only one of them is a local temp. `isLocal` is
`tcg_arg_is_local`. -/
def tcgOptGenMov (isLocal : ℕ → Bool) (temps : TcgTemps) (dst src nbTemps nbGlobals : ℕ) :
    Option TcgTemps := do
  let temps ← resetTemp temps dst nbTemps nbGlobals
  guard (temps.state src ≠ .copy)
  if nbGlobals ≤ src ∧ nbGlobals ≤ dst ∧ isLocal src = isLocal dst then
    guard (temps.state src ≠ .const)
    pure (spliceCopy (makeRep temps src) dst src)
  else
    pure temps

/-- `tcg_opt_gen_movi`: `dst` holds the constant `val`. -/
def tcgOptGenMovi (temps : TcgTemps) (dst val nbTemps nbGlobals : ℕ) : Option TcgTemps := do
  let temps ← resetTemp temps dst nbTemps nbGlobals
  pure ((temps.setState dst .const).setVal dst val)

/-! ## What the writes do -/

variable {temps : TcgTemps} {temp dst src nbTemps nbGlobals : ℕ}

@[simp] theorem unlinkTemp_state : (unlinkTemp temps temp).state = temps.state := rfl

@[simp] theorem unlinkTemp_val : (unlinkTemp temps temp).val = temps.val := rfl

/-- The `prev_copy` of `temp` is the same after the first write, so the
second write links the neighbours of `temp` to each other. -/
theorem unlinkTemp_nextCopy :
    (unlinkTemp temps temp).nextCopy =
      update temps.nextCopy (temps.prevCopy temp) (temps.nextCopy temp) := by
  have hprev : update temps.prevCopy (temps.nextCopy temp) (temps.prevCopy temp) temp =
      temps.prevCopy temp := by
    by_cases h : temp = temps.nextCopy temp
    · rw [← h, update_self]
    · exact update_of_ne h _ _
  simp [unlinkTemp, hprev]

theorem unlinkTemp_prevCopy :
    (unlinkTemp temps temp).prevCopy =
      update temps.prevCopy (temps.nextCopy temp) (temps.prevCopy temp) := rfl

theorem makeRep_of_hasCopy (h : temps.state src = .hasCopy) : makeRep temps src = temps := by
  simp [makeRep, h]

@[simp] theorem makeRep_val : (makeRep temps src).val = temps.val := by
  unfold makeRep
  split_ifs <;> rfl

@[simp] theorem makeRep_state_self : (makeRep temps src).state src = .hasCopy := by
  unfold makeRep
  split_ifs with h
  · simp
  · exact not_not.mp h

theorem makeRep_state_of_ne {t : ℕ} (ht : t ≠ src) :
    (makeRep temps src).state t = temps.state t := by
  unfold makeRep
  split_ifs <;> simp [ht]

theorem makeRep_of_ne (h : temps.state src ≠ .hasCopy) :
    makeRep temps src =
      ((temps.setState src .hasCopy).setNextCopy src src).setPrevCopy src src := by
  simp [makeRep, h]

@[simp] theorem spliceCopy_state :
    (spliceCopy temps dst src).state = update temps.state dst .copy := rfl

@[simp] theorem spliceCopy_val : (spliceCopy temps dst src).val = update temps.val dst src := rfl

/-- The links after the splice, in the form `IsCycle.splice` takes. -/
theorem spliceCopy_nextCopy :
    (spliceCopy temps dst src).nextCopy =
      update (update temps.nextCopy dst (temps.nextCopy src)) src dst := by
  simp [spliceCopy]

theorem spliceCopy_prevCopy :
    (spliceCopy temps dst src).prevCopy =
      update (update temps.prevCopy dst src) (temps.nextCopy src) dst := by
  simp [spliceCopy]

/-- The second loop of `reset_temp` once a new base `b` is chosen. -/
theorem foldl_setVal (l : List ℕ) (b : ℕ) (temps : TcgTemps) :
    l.foldl (fun temps i => temps.setVal i b) temps =
      { temps with val := fun a => if a ∈ l then b else temps.val a } := by
  induction l generalizing temps with
  | nil => simp
  | cons i l ih =>
    rw [List.foldl_cons, ih]
    congr 1
    funext a
    by_cases hal : a ∈ l
    · simp [hal]
    · by_cases hai : a = i <;> simp [hal, hai]

/-! ## The invariant -/

/-- `r` represents the class `r :: l`: `r` is `HAS_COPY` and heads the
cycle through `l`, every member of which is a `COPY` naming `r`. -/
structure CopyClass (temps : TcgTemps) (r : ℕ) (l : List ℕ) : Prop where
  rep : temps.state r = .hasCopy
  ne_nil : l ≠ []
  cycle : LinkedCycle.IsCycle temps.nextCopy temps.prevCopy r l
  copies : ∀ t ∈ l, temps.state t = .copy ∧ temps.val t = r

/-- The optimizer's temp-state invariant. -/
structure CopyInv (nbTemps nbGlobals : ℕ) (temps : TcgTemps) : Prop where
  hasCopy : ∀ r, temps.state r = .hasCopy → ∃ l, CopyClass temps r l
  copy : ∀ t, temps.state t = .copy → ∃ l, CopyClass temps (temps.val t) l ∧ t ∈ l
  /-- no global is in a class, and every member is a temp of the block -/
  bound : ∀ t, (temps.state t).inClass → nbGlobals ≤ t ∧ t < nbTemps

/-- Temp `a` is the same in both arrays. -/
def SameAt (temps temps' : TcgTemps) (a : ℕ) : Prop :=
  temps'.state a = temps.state a ∧ temps'.val a = temps.val a ∧
    temps'.nextCopy a = temps.nextCopy a ∧ temps'.prevCopy a = temps.prevCopy a

/-- The temps of `S` hold every class they meet. -/
def Closed (temps : TcgTemps) (S : List ℕ) : Prop :=
  ∀ r l, CopyClass temps r l → ∀ a ∈ r :: l, a ∈ S → ∀ b ∈ r :: l, b ∈ S

variable {temps' : TcgTemps} {r : ℕ} {l : List ℕ}

theorem CopyClass.inClass (hc : CopyClass temps r l) {a : ℕ} (ha : a ∈ r :: l) :
    (temps.state a).inClass := by
  rcases List.mem_cons.mp ha with rfl | ha
  · simp [hc.rep, TcgTempState.inClass]
  · simp [(hc.copies a ha).1, TcgTempState.inClass]

/-- The frame rule: a class reads only its own temps. -/
theorem CopyClass.frame (hc : CopyClass temps r l) (hs : ∀ a ∈ r :: l, SameAt temps temps' a) :
    CopyClass temps' r l where
  rep := (hs r List.mem_cons_self).1.trans hc.rep
  ne_nil := hc.ne_nil
  cycle := hc.cycle.congr (fun a ha => (hs a ha).2.2.1) (fun a ha => (hs a ha).2.2.2)
  copies t ht := by
    obtain ⟨hst, hvt, -⟩ := hs t (List.mem_cons_of_mem r ht)
    rw [hst, hvt]
    exact hc.copies t ht

/-- Two classes that share a temp have the same representative. -/
theorem CopyClass.eq_of_mem {r' : ℕ} {l' : List ℕ} (hc : CopyClass temps r l)
    (hc' : CopyClass temps r' l') {a : ℕ} (ha : a ∈ r :: l) (ha' : a ∈ r' :: l') :
    r = r' := by
  rcases List.mem_cons.mp ha with rfl | ha <;> rcases List.mem_cons.mp ha' with rfl | ha'
  · rfl
  · -- a representative is no copy
    have := (hc'.copies a ha').1
    rw [hc.rep] at this
    cases this
  · have := (hc.copies a ha).1
    rw [hc'.rep] at this
    cases this
  · exact (hc.copies a ha).2.symm.trans (hc'.copies a ha').2

theorem CopyClass.unique {l' : List ℕ} (hc : CopyClass temps r l) (hc' : CopyClass temps r l') :
    l = l' :=
  hc.cycle.unique hc'.cycle

theorem CopyClass.closed (hc : CopyClass temps r l) : Closed temps (r :: l) := by
  intro r' l' hc' a ha haS b hb
  have hr : r = r' := hc.eq_of_mem hc' haS ha
  subst hr
  rw [hc.unique hc']
  exact hb

theorem closed_singleton {a : ℕ} (h : (temps.state a).inClass = false) : Closed temps [a] := by
  intro r l hc b hb hbS
  have hin := hc.inClass hb
  rw [List.mem_singleton.mp hbS, h] at hin
  cases hin

theorem Closed.append {S S' : List ℕ} (h : Closed temps S) (h' : Closed temps S') :
    Closed temps (S ++ S') := by
  intro r l hc a ha haS b hb
  rcases List.mem_append.mp haS with haS | haS
  · exact List.mem_append_left _ (h r l hc a ha haS b hb)
  · exact List.mem_append_right _ (h' r l hc a ha haS b hb)

/-- The invariant after a change confined to a closed set of temps `S`:
every class outside `S` is kept by the frame rule, so it is enough that
every temp of `S` still in a class afterwards is in one. -/
theorem CopyInv.of_closed (h : CopyInv nbTemps nbGlobals temps) {S : List ℕ}
    (hS : Closed temps S) (hsame : ∀ a ∉ S, SameAt temps temps' a)
    (hnew : ∀ a ∈ S, (temps'.state a).inClass →
      ∃ r l, CopyClass temps' r l ∧ a ∈ r :: l)
    (hbound : ∀ a ∈ S, (temps'.state a).inClass → nbGlobals ≤ a ∧ a < nbTemps) :
    CopyInv nbTemps nbGlobals temps' := by
  -- a class of the old array with a temp outside S lies outside S
  have hout : ∀ r l, CopyClass temps r l → r ∉ S ∨ (∃ t ∈ l, t ∉ S) →
      CopyClass temps' r l := by
    intro r l hc hr
    refine hc.frame fun a ha => hsame a fun haS => ?_
    rcases hr with hr | ⟨t, ht, htS⟩
    · exact hr (hS r l hc a ha haS r List.mem_cons_self)
    · exact htS (hS r l hc a ha haS t (List.mem_cons_of_mem r ht))
  refine ⟨fun r hr => ?_, fun t ht => ?_, fun t ht => ?_⟩
  · by_cases hrS : r ∈ S
    · obtain ⟨r', l', hc', hr'⟩ := hnew r hrS (by simp [hr, TcgTempState.inClass])
      -- r is HAS_COPY, so it is the head of its class
      rcases List.mem_cons.mp hr' with rfl | hr'
      · exact ⟨l', hc'⟩
      · have := (hc'.copies r hr').1
        rw [hr] at this
        cases this
    · obtain ⟨hst, -⟩ := hsame r hrS
      obtain ⟨l, hc⟩ := h.hasCopy r (hst ▸ hr)
      exact ⟨l, hout r l hc (.inl hrS)⟩
  · by_cases htS : t ∈ S
    · obtain ⟨r', l', hc', ht'⟩ := hnew t htS (by simp [ht, TcgTempState.inClass])
      rcases List.mem_cons.mp ht' with rfl | ht'
      · rw [hc'.rep] at ht
        cases ht
      · rw [(hc'.copies t ht').2]
        exact ⟨l', hc', ht'⟩
    · obtain ⟨hst, hvt, -⟩ := hsame t htS
      obtain ⟨l, hc, htl⟩ := h.copy t (hst ▸ ht)
      rw [hvt]
      exact ⟨l, hout _ l hc (.inr ⟨t, htl, htS⟩), htl⟩
  · by_cases htS : t ∈ S
    · exact hbound t htS ht
    · obtain ⟨hst, -⟩ := hsame t htS
      exact h.bound t (hst ▸ ht)

/-- A class has fewer members after its head than there are temps. -/
theorem CopyInv.length_lt (h : CopyInv nbTemps nbGlobals temps) (hc : CopyClass temps r l) :
    l.length < nbTemps := by
  have hsub : (r :: l).toFinset ⊆ Finset.range nbTemps := by
    intro a ha
    exact Finset.mem_range.mpr (h.bound a (hc.inClass (List.mem_toFinset.mp ha))).2
  have hcard := Finset.card_le_card hsub
  rw [List.toFinset_card_of_nodup hc.cycle.nodup, Finset.card_range, List.length_cons] at hcard
  omega

/-! ## `reset_temp` -/

theorem resetTemp_of_not_inClass (h : (temps.state temp).inClass = false) :
    resetTemp temps temp nbTemps nbGlobals = some (temps.setState temp .any) := by
  unfold resetTemp
  cases hs : temps.state temp <;> simp_all [TcgTempState.inClass, resetTempTail]

theorem resetTemp_of_copy (h : temps.state temp = .copy) :
    resetTemp temps temp nbTemps nbGlobals =
      some (resetTempTail (unlinkTemp temps temp) temp (some (temps.val temp))) := by
  simp [resetTemp, h]

/-- Both loops of `reset_temp` run over the class, which ends within
`nb_temps` steps; its first member is the new base. -/
theorem resetTemp_of_class {y : ℕ} {m : List ℕ} (hc : CopyClass temps temp (y :: m))
    (hy : nbGlobals ≤ y) (hlen : (y :: m).length < nbTemps) :
    resetTemp temps temp nbTemps nbGlobals =
      some (resetTempTail (unlinkTemp ⟨update temps.state y .hasCopy, temps.prevCopy,
        temps.nextCopy, fun a => if a ∈ y :: m then y else temps.val a⟩ temp) temp
        (some y)) := by
  simp [resetTemp, hc.rep, hc.cycle.walk_eq hlen, hy, foldl_setVal, -List.foldl_cons]

/-- The new base `b` is left alone, and so demoted, iff nothing follows it
in its cycle. -/
theorem resetTempTail_some {b : ℕ} (hb : LinkedCycle.IsCycle temps.nextCopy temps.prevCopy b l) :
    resetTempTail temps temp (some b) =
      if l = [] then (temps.setState temp .any).setState b .any
      else temps.setState temp .any := by
  have hl : temps.nextCopy b = b ↔ l = [] := by
    rw [hb.next_eq_headD]
    cases l with
    | nil => simp
    | cons c k =>
      have hbc : b ≠ c := fun he => (List.nodup_cons.mp hb.nodup).1 (he ▸ List.mem_cons_self)
      simp [Ne.symm hbc]
  by_cases h : l = [] <;> simp [resetTempTail, hl, h]

/-- Whatever the new base, `reset_temp` leaves its argument `ANY`. -/
@[simp] theorem resetTempTail_state_self (newBase : Option ℕ) :
    (resetTempTail temps temp newBase).state temp = .any := by
  rcases newBase with _ | b
  · simp [resetTempTail]
  · by_cases hb : temp = b
    · subst hb
      by_cases hn : temps.nextCopy temp = temp <;> simp [resetTempTail, hn]
    · by_cases hn : temps.nextCopy b = b <;> simp [resetTempTail, hn, hb]

@[simp] theorem resetTempTail_val (newBase : Option ℕ) :
    (resetTempTail temps temp newBase).val = temps.val := by
  rcases newBase with _ | b
  · rfl
  · by_cases hn : temps.nextCopy b = b <;> simp [resetTempTail, hn]

/-- The end of `reset_temp` only makes temps `ANY`. -/
theorem resetTempTail_state_of_ne_any {newBase : Option ℕ} {t : ℕ}
    (ht : (resetTempTail temps temp newBase).state t ≠ .any) :
    (resetTempTail temps temp newBase).state t = temps.state t := by
  rcases newBase with _ | b
  · simp only [resetTempTail, setState_state] at ht ⊢
    by_cases htt : t = temp
    · simp [htt] at ht
    · simp [htt]
  · by_cases hn : temps.nextCopy b = b
    · simp only [resetTempTail, setState_nextCopy, hn, ite_true, setState_state] at ht ⊢
      by_cases htb : t = b
      · simp [htb] at ht
      · by_cases htt : t = temp
        · subst htt
          simp [htb] at ht
        · simp [htb, htt]
    · simp only [resetTempTail, setState_nextCopy, hn, ite_false, setState_state] at ht ⊢
      by_cases htt : t = temp
      · simp [htt] at ht
      · simp [htt]

/-! ## `reset_temp` keeps the invariant -/

/-- A change to a closed set of temps that leaves none of them in a class. -/
theorem CopyInv.of_closed_out (h : CopyInv nbTemps nbGlobals temps) {S : List ℕ}
    (hS : Closed temps S) (hsame : ∀ a ∉ S, SameAt temps temps' a)
    (hout : ∀ a ∈ S, (temps'.state a).inClass = false) : CopyInv nbTemps nbGlobals temps' := by
  refine h.of_closed hS hsame (fun a ha hin => ?_) (fun a ha hin => ?_)
  · rw [hout a ha] at hin
    cases hin
  · rw [hout a ha] at hin
    cases hin

/-- A change to one temp that is in no class, before or after. -/
theorem CopyInv.of_single (h : CopyInv nbTemps nbGlobals temps)
    (hs : (temps.state temp).inClass = false) (hsame : ∀ a ≠ temp, SameAt temps temps' a)
    (hs' : (temps'.state temp).inClass = false) : CopyInv nbTemps nbGlobals temps' := by
  refine h.of_closed_out (closed_singleton hs) (fun a ha => hsame a ?_) (fun a ha => ?_)
  · exact fun he => ha (he ▸ List.mem_singleton_self temp)
  · rw [List.mem_singleton.mp ha]
    exact hs'

/-- `reset_temp` of a `COPY`: it leaves its class, and a representative
left alone becomes `ANY`. -/
theorem CopyInv.resetTemp_copy (h : CopyInv nbTemps nbGlobals temps)
    (hs : temps.state temp = .copy) :
    CopyInv nbTemps nbGlobals
      (resetTempTail (unlinkTemp temps temp) temp (some (temps.val temp))) := by
  obtain ⟨l, hc, htl⟩ := h.copy temp hs
  set r := temps.val temp with hr
  obtain ⟨l₁, l₂, rfl⟩ := List.append_of_mem htl
  have hcyc : LinkedCycle.IsCycle (unlinkTemp temps temp).nextCopy
      (unlinkTemp temps temp).prevCopy r (l₁ ++ l₂) := by
    rw [unlinkTemp_nextCopy, unlinkTemp_prevCopy]
    exact hc.cycle.unlink_mem
  have hmem : temp ∈ r :: (l₁ ++ temp :: l₂) := List.mem_cons_of_mem r htl
  have hrt : r ≠ temp := by
    intro he
    have := hc.rep
    rw [he, hs] at this
    cases this
  -- the temps outside the class are not written
  have hsame : ∀ a ∉ r :: (l₁ ++ temp :: l₂), a ≠ temp ∧ a ≠ r ∧
      SameAt temps (unlinkTemp temps temp) a := by
    intro a ha
    have hp : a ≠ temps.prevCopy temp := fun he => ha (he ▸ hc.cycle.prev_mem hmem)
    have hn : a ≠ temps.nextCopy temp := fun he => ha (he ▸ hc.cycle.next_mem hmem)
    refine ⟨fun he => ha (he ▸ hmem), fun he => ha (he ▸ List.mem_cons_self), ?_⟩
    simp [SameAt, unlinkTemp_nextCopy, unlinkTemp_prevCopy, hp, hn]
  rw [resetTempTail_some hcyc]
  split_ifs with hnil
  · -- the class was `r` and `temp` alone: both are `ANY` now
    obtain ⟨rfl, rfl⟩ := List.append_eq_nil_iff.mp hnil
    refine h.of_closed_out hc.closed (fun a ha => ?_) (fun a ha => ?_)
    · obtain ⟨h1, h2, h3⟩ := hsame a ha
      simpa [SameAt, h1, h2] using h3
    · rcases List.mem_cons.mp ha with rfl | ha
      · simp [TcgTempState.inClass]
      · rw [List.mem_singleton.mp ha]
        simp [Ne.symm hrt, TcgTempState.inClass]
  · -- otherwise `r` still represents what is left
    have hnew : CopyClass ((unlinkTemp temps temp).setState temp .any) r (l₁ ++ l₂) := by
      refine ⟨by simp [hrt, hc.rep], hnil, by simpa using hcyc, fun t ht => ?_⟩
      have htt : t ≠ temp := by
        rintro rfl
        exact (List.nodup_cons.mp (List.nodup_middle.mp (List.nodup_cons.mp hc.cycle.nodup).2)).1 ht
      have := hc.copies t (by simp only [List.mem_append, List.mem_cons] at ht ⊢; tauto)
      simpa [htt] using this
    refine h.of_closed hc.closed (fun a ha => ?_) (fun a ha hin => ⟨r, l₁ ++ l₂, hnew, ?_⟩)
      (fun a ha _ => h.bound a (hc.inClass ha))
    · obtain ⟨h1, -, h3⟩ := hsame a ha
      simpa [SameAt, h1] using h3
    · have hat : a ≠ temp := by
        rintro rfl
        simp [TcgTempState.inClass] at hin
      simp only [List.mem_cons, List.mem_append] at ha ⊢
      tauto

/-- `reset_temp` of a representative: the first member after it represents
the rest of the class, and becomes `ANY` if there is no rest. -/
theorem CopyInv.resetTemp_class (h : CopyInv nbTemps nbGlobals temps) {y : ℕ} {m : List ℕ}
    (hc : CopyClass temps temp (y :: m)) :
    CopyInv nbTemps nbGlobals (resetTempTail (unlinkTemp ⟨update temps.state y .hasCopy,
      temps.prevCopy, temps.nextCopy, fun a => if a ∈ y :: m then y else temps.val a⟩ temp)
      temp (some y)) := by
  set X : TcgTemps := ⟨update temps.state y .hasCopy, temps.prevCopy, temps.nextCopy,
    fun a => if a ∈ y :: m then y else temps.val a⟩ with hX
  have hcyc :
      LinkedCycle.IsCycle (unlinkTemp X temp).nextCopy (unlinkTemp X temp).prevCopy y m := by
    rw [unlinkTemp_nextCopy, unlinkTemp_prevCopy]
    exact hc.cycle.unlink
  have hmem : temp ∈ temp :: y :: m := List.mem_cons_self
  have hnd := List.nodup_cons.mp hc.cycle.nodup
  have hyt : y ≠ temp := fun he => hnd.1 (he ▸ List.mem_cons_self)
  -- the temps outside the class are not written
  have hsame : ∀ a ∉ temp :: y :: m,
      a ≠ temp ∧ a ≠ y ∧ SameAt temps (unlinkTemp X temp) a := by
    intro a ha
    have hp : a ≠ temps.prevCopy temp := fun he => ha (he ▸ hc.cycle.prev_mem hmem)
    have hn : a ≠ temps.nextCopy temp := fun he => ha (he ▸ hc.cycle.next_mem hmem)
    have hay : a ∉ y :: m := fun h' => ha (List.mem_cons_of_mem temp h')
    refine ⟨fun he => ha (he ▸ hmem), fun he => hay (he ▸ List.mem_cons_self), ?_⟩
    simp only [List.mem_cons, not_or] at hay
    simp [SameAt, X, unlinkTemp_nextCopy, unlinkTemp_prevCopy, hp, hn, hay.1, hay.2]
  rw [resetTempTail_some hcyc]
  split_ifs with hnil
  · -- `temp` had one copy: both are `ANY` now
    subst hnil
    refine h.of_closed_out hc.closed (fun a ha => ?_) (fun a ha => ?_)
    · obtain ⟨h1, h2, h3⟩ := hsame a ha
      simpa [SameAt, h1, h2] using h3
    · simp only [List.mem_cons, List.not_mem_nil, or_false] at ha
      rcases ha with rfl | rfl
      · simp [Ne.symm hyt, TcgTempState.inClass]
      · simp [TcgTempState.inClass]
  · -- otherwise `y` represents the rest
    have hnew : CopyClass ((unlinkTemp X temp).setState temp .any) y m := by
      refine ⟨by simp [X, hyt], hnil, by simpa using hcyc, fun t ht => ?_⟩
      have htt : t ≠ temp := fun he => hnd.1 (he ▸ List.mem_cons_of_mem y ht)
      have hty : t ≠ y := fun he => (List.nodup_cons.mp hnd.2).1 (he ▸ ht)
      have := hc.copies t (List.mem_cons_of_mem y ht)
      simp [X, htt, hty, ht, this.1]
    refine h.of_closed hc.closed (fun a ha => ?_) (fun a ha hin => ⟨y, m, hnew, ?_⟩)
      (fun a ha _ => h.bound a (hc.inClass ha))
    · obtain ⟨h1, -, h3⟩ := hsame a ha
      simpa [SameAt, h1] using h3
    · have hat : a ≠ temp := by
        rintro rfl
        simp [TcgTempState.inClass] at hin
      simp only [List.mem_cons] at ha ⊢
      tauto

/-- `reset_temp` returns on every array with the invariant, keeps it, and
leaves its argument `ANY`. -/
theorem copyInv_resetTemp (h : CopyInv nbTemps nbGlobals temps) (temp : ℕ) :
    ∃ temps', resetTemp temps temp nbTemps nbGlobals = some temps' ∧
      CopyInv nbTemps nbGlobals temps' ∧ temps'.state temp = .any := by
  cases hs : temps.state temp with
  | copy =>
    exact ⟨_, resetTemp_of_copy hs, h.resetTemp_copy hs, resetTempTail_state_self _⟩
  | hasCopy =>
    obtain ⟨l, hc⟩ := h.hasCopy temp hs
    obtain ⟨y, m, rfl⟩ := List.exists_cons_of_ne_nil hc.ne_nil
    have hy := (h.bound y (hc.inClass (List.mem_cons_of_mem temp List.mem_cons_self))).1
    exact ⟨_, resetTemp_of_class hc hy (h.length_lt hc), h.resetTemp_class hc,
      resetTempTail_state_self _⟩
  | undef | const | any =>
    have hn : (temps.state temp).inClass = false := by simp [hs, TcgTempState.inClass]
    refine ⟨_, resetTemp_of_not_inClass hn, h.of_single hn (fun a ha => ?_) ?_, by simp⟩
    · simp [SameAt, ha]
    · simp [TcgTempState.inClass]

/-! ## The movers -/

/-- Splicing `dst` in after `src`, where `M` is `temps` changed at most at
`src`, and `src` heads in `M` a cycle of copies `l0` that was a closed set
together with `src` before. -/
theorem CopyInv.spliceCopy_of (h : CopyInv nbTemps nbGlobals temps) {M : TcgTemps}
    {l0 : List ℕ} (hS : Closed temps (src :: l0)) (hsame : ∀ a ≠ src, SameAt temps M a)
    (hrep : M.state src = .hasCopy) (hcyc : LinkedCycle.IsCycle M.nextCopy M.prevCopy src l0)
    (hl0 : ∀ t ∈ l0, M.state t = .copy ∧ M.val t = src ∧ nbGlobals ≤ t ∧ t < nbTemps)
    (hd : (temps.state dst).inClass = false) (hne : dst ≠ src)
    (hdb : nbGlobals ≤ dst ∧ dst < nbTemps) (hsb : nbGlobals ≤ src ∧ src < nbTemps) :
    CopyInv nbTemps nbGlobals (spliceCopy M dst src) := by
  have hdl : dst ∉ l0 := by
    intro hm
    have h1 := (hl0 dst hm).1
    rw [(hsame dst hne).1] at h1
    simp [h1, TcgTempState.inClass] at hd
  have hnext : M.nextCopy src ∈ src :: l0 := hcyc.next_mem List.mem_cons_self
  -- the new class: `dst` right after `src`
  have hnew : CopyClass (spliceCopy M dst src) src (dst :: l0) := by
    refine ⟨by simp [Ne.symm hne, hrep], List.cons_ne_nil _ _, ?_, fun t ht => ?_⟩
    · rw [spliceCopy_nextCopy, spliceCopy_prevCopy]
      exact hcyc.splice (by simp [hne, hdl])
    · rcases List.mem_cons.mp ht with rfl | ht
      · simp
      · have htd : t ≠ dst := fun he => hdl (he ▸ ht)
        simp [htd, (hl0 t ht).1, (hl0 t ht).2.1]
  refine h.of_closed (S := [dst] ++ src :: l0) ((closed_singleton hd).append hS)
    (fun a ha => ?_) (fun a ha _ => ⟨src, dst :: l0, hnew, ?_⟩) (fun a ha _ => ?_)
  · simp only [List.singleton_append, List.mem_cons, not_or] at ha
    have hn : a ≠ M.nextCopy src := fun he => by
      rcases List.mem_cons.mp (he ▸ hnext) with h' | h'
      · exact ha.2.1 h'
      · exact ha.2.2 h'
    obtain ⟨h1, h2, h3, h4⟩ := hsame a ha.2.1
    simp [SameAt, spliceCopy_nextCopy, spliceCopy_prevCopy, ha.1, ha.2.1, hn, h1, h2, h3, h4]
  · simp only [List.singleton_append, List.mem_cons] at ha ⊢
    tauto
  · simp only [List.singleton_append, List.mem_cons] at ha
    rcases ha with rfl | rfl | ha
    · exact hdb
    · exact hsb
    · exact (hl0 a ha).2.2

/-- What `tcg_opt_gen_mov` can do once it returns: after `reset_temp(dst)`,
with `src` no `COPY`, it either links `dst` in after `src` (both non-global
temps of one locality, `src` no `CONST`) or stops there. -/
theorem tcgOptGenMov_cases {isLocal : ℕ → Bool}
    (hmov : tcgOptGenMov isLocal temps dst src nbTemps nbGlobals = some temps') :
    ∃ T, resetTemp temps dst nbTemps nbGlobals = some T ∧ T.state src ≠ .copy ∧
      ((nbGlobals ≤ src ∧ nbGlobals ≤ dst ∧ isLocal src = isLocal dst) ∧
          T.state src ≠ .const ∧ temps' = spliceCopy (makeRep T src) dst src ∨
        ¬(nbGlobals ≤ src ∧ nbGlobals ≤ dst ∧ isLocal src = isLocal dst) ∧
          temps' = T) := by
  cases hT : resetTemp temps dst nbTemps nbGlobals with
  | none => simp [tcgOptGenMov, hT] at hmov
  | some T =>
    simp only [tcgOptGenMov, hT, Option.bind_eq_bind, Option.bind_some, guard] at hmov
    refine ⟨T, rfl, ?_⟩
    split_ifs at hmov with hcopy hlink hconst <;> simp_all

/-- `tcg_opt_gen_mov` keeps the invariant when it returns, for distinct
arguments. -/
theorem copyInv_tcgOptGenMov {isLocal : ℕ → Bool} (h : CopyInv nbTemps nbGlobals temps)
    (hne : dst ≠ src) (hd : dst < nbTemps) (hs : src < nbTemps)
    (hmov : tcgOptGenMov isLocal temps dst src nbTemps nbGlobals = some temps') :
    CopyInv nbTemps nbGlobals temps' := by
  obtain ⟨T, hT, hcopy, hcases⟩ := tcgOptGenMov_cases hmov
  obtain ⟨T', hT', hinv, hany⟩ := copyInv_resetTemp h dst
  rw [hT'] at hT
  cases hT
  rcases hcases with ⟨⟨hsg, hdg, -⟩, -, rfl⟩ | ⟨-, rfl⟩
  · have hd' : (T.state dst).inClass = false := by simp [hany, TcgTempState.inClass]
    by_cases hrep : T.state src = .hasCopy
    · -- `src` already represents a class: `dst` joins it
      obtain ⟨l, hc⟩ := hinv.hasCopy src hrep
      rw [makeRep_of_hasCopy hrep]
      exact hinv.spliceCopy_of hc.closed (fun a _ => ⟨rfl, rfl, rfl, rfl⟩) hrep hc.cycle
        (fun t ht => ⟨(hc.copies t ht).1, (hc.copies t ht).2,
          hinv.bound t (hc.inClass (List.mem_cons_of_mem src ht))⟩)
        hd' hne ⟨hdg, hd⟩ ⟨hsg, hs⟩
    · -- a class of two is made
      have hs' : (T.state src).inClass = false := by
        cases h' : T.state src <;> simp_all [TcgTempState.inClass]
      rw [makeRep_of_ne hrep]
      refine hinv.spliceCopy_of (closed_singleton hs') (fun a ha => ?_) (by simp)
        (isCycle_nil.mpr ⟨by simp, by simp⟩) (by simp) hd' hne ⟨hdg, hd⟩ ⟨hsg, hs⟩
      simp [SameAt, ha]
  · exact hinv

/-- A move of a non-global temp to itself makes it a `COPY` of itself on a
cycle of its own, which breaks the invariant: a `COPY` must name a
`HAS_COPY` temp. -/
theorem tcgOptGenMov_self {isLocal : ℕ → Bool} (h : CopyInv nbTemps nbGlobals temps)
    (ht : nbGlobals ≤ temp) :
    ∃ temps', tcgOptGenMov isLocal temps temp temp nbTemps nbGlobals = some temps' ∧
      temps'.state temp = .copy ∧ temps'.val temp = temp ∧
      ¬CopyInv nbTemps nbGlobals temps' := by
  obtain ⟨T, hT, -, hany⟩ := copyInv_resetTemp h temp
  have hmov : tcgOptGenMov isLocal temps temp temp nbTemps nbGlobals =
      some (spliceCopy (makeRep T temp) temp temp) := by
    simp [tcgOptGenMov, hT, hany, ht, guard]
  refine ⟨_, hmov, by simp, by simp, fun hinv => ?_⟩
  obtain ⟨l, hc, -⟩ := hinv.copy temp (by simp)
  have := hc.rep
  simp at this

theorem tcgOptGenMovi_eq (temps : TcgTemps) (dst val : ℕ) :
    tcgOptGenMovi temps dst val nbTemps nbGlobals =
      (resetTemp temps dst nbTemps nbGlobals).map
        fun T => (T.setState dst .const).setVal dst val := by
  unfold tcgOptGenMovi
  cases resetTemp temps dst nbTemps nbGlobals <;> rfl

/-- `tcg_opt_gen_movi` returns on every array with the invariant and keeps
it; `dst` holds the constant. -/
theorem copyInv_tcgOptGenMovi (h : CopyInv nbTemps nbGlobals temps) (dst val : ℕ) :
    ∃ temps', tcgOptGenMovi temps dst val nbTemps nbGlobals = some temps' ∧
      CopyInv nbTemps nbGlobals temps' ∧ temps'.state dst = .const ∧ temps'.val dst = val := by
  obtain ⟨T, hT, hinv, hany⟩ := copyInv_resetTemp h dst
  refine ⟨(T.setState dst .const).setVal dst val, by simp [tcgOptGenMovi, hT],
    hinv.of_single (show (T.state dst).inClass = false by simp [hany, TcgTempState.inClass])
      (fun a ha => ?_)
      (by simp [TcgTempState.inClass]), by simp, by simp⟩
  simp [SameAt, ha]

/-- What `reset_temp` does to a temp that is a `COPY` or a `CONST` after it:
the temp had that state before, and its `val` is the same, or else it was a
`COPY` of `temp` and now names the new base, which was a `COPY` of `temp`
too. -/
theorem resetTemp_val_of_known {T : TcgTemps} (h : CopyInv nbTemps nbGlobals temps)
    (hT : resetTemp temps temp nbTemps nbGlobals = some T) {t : ℕ}
    (ht : T.state t = .copy ∨ T.state t = .const) :
    T.state t = temps.state t ∧ (T.val t = temps.val t ∨ temps.state t = .copy ∧
      temps.val t = temp ∧ temps.state (T.val t) = .copy ∧ temps.val (T.val t) = temp) := by
  have hany : T.state t ≠ .any := by rcases ht with ht | ht <;> simp [ht]
  cases hs : temps.state temp with
  | copy =>
    rw [resetTemp_of_copy hs] at hT
    cases hT
    exact ⟨resetTempTail_state_of_ne_any hany, .inl (by simp)⟩
  | hasCopy =>
    obtain ⟨l, hc⟩ := h.hasCopy temp hs
    obtain ⟨y, m, rfl⟩ := List.exists_cons_of_ne_nil hc.ne_nil
    have hy := (h.bound y (hc.inClass (List.mem_cons_of_mem temp List.mem_cons_self))).1
    rw [resetTemp_of_class hc hy (h.length_lt hc)] at hT
    cases hT
    have hst := resetTempTail_state_of_ne_any hany
    simp only [unlinkTemp_state] at hst
    -- the new base is `HAS_COPY` or `ANY`, so `t` is not it
    have hty : t ≠ y := by
      intro he
      rw [hst, he] at ht
      simp at ht
    rw [hst, update_of_ne hty]
    refine ⟨rfl, ?_⟩
    simp only [resetTempTail_val, unlinkTemp_val]
    by_cases htm : t ∈ y :: m
    · have htm' : t ∈ m := (List.mem_cons.mp htm).resolve_left hty
      exact .inr ⟨(hc.copies t (List.mem_cons_of_mem y htm')).1,
        by simp [(hc.copies t (List.mem_cons_of_mem y htm')).2],
        by simp [htm, (hc.copies y List.mem_cons_self).1],
        by simp [htm, (hc.copies y List.mem_cons_self).2]⟩
    · exact .inl (by simp [htm])
  | undef | const | any =>
    have hn : (temps.state temp).inClass = false := by simp [hs, TcgTempState.inClass]
    rw [resetTemp_of_not_inClass hn] at hT
    cases hT
    have htt : t ≠ temp := by
      rintro rfl
      simp at hany
    simp [htt]

/-! ## A block -/

/-- `TCGType`: the type of a temp, and of the move that writes it. -/
inductive TcgType where
  | i32
  | i64
  deriving DecidableEq, Repr

/-- The width of a type (`op_bits` of a move of that type). -/
def TcgType.bits : TcgType → ℕ
  | .i32 => 32
  | .i64 => 64

/-- What an op of a block does to the temps as `tcg_constant_folding`
handles it. -/
inductive TempOp where
  /-- an op whose result the optimizer does not know writes `v` to `t` (the
  default case, an op it does not fold, a call's outputs and the globals a
  call clobbers): `reset_temp(t)` -/
  | write (t v : ℕ)
  /-- `mov_i32` / `mov_i64 dst, src`, or an op it simplifies to one (`x + 0`,
  `x & x`): `tcg_opt_gen_mov` -/
  | mov (ty : TcgType) (dst src : ℕ)
  /-- `movi`, or an op it folds to a constant: `tcg_opt_gen_movi` -/
  | movi (ty : TcgType) (dst val : ℕ)
  /-- `set_label`, `jmp`, `br`, `brcond`: the array is cleared -/
  | clear
  deriving DecidableEq, Repr

/-- The optimizer's array, and the value each temp holds when the block has
run up to the op. -/
structure BlockState where
  temps : TcgTemps
  values : ℕ → ℕ

/-- One op: the optimizer's routine, and the op itself at run time as
`tcg_qemu_tb_exec` (tci.c) runs it — a 32-bit move writes the low 32 bits of
its source, zero-extended. -/
def TempOp.step (isLocal : ℕ → Bool) (nbTemps nbGlobals : ℕ) (st : BlockState) :
    TempOp → Option BlockState
  | .write t v =>
    (resetTemp st.temps t nbTemps nbGlobals).map fun temps => ⟨temps, update st.values t v⟩
  | .mov ty dst src =>
    (tcgOptGenMov isLocal st.temps dst src nbTemps nbGlobals).map fun temps =>
      ⟨temps, update st.values dst (st.values src % 2 ^ ty.bits)⟩
  | .movi ty dst val =>
    (tcgOptGenMovi st.temps dst val nbTemps nbGlobals).map fun temps =>
      ⟨temps, update st.values dst (val % 2 ^ ty.bits)⟩
  | .clear => some ⟨.cleared, st.values⟩

/-- The ops of a block one after another, `none` as soon as the optimizer
stops on an assert. -/
def runTempOps (isLocal : ℕ → Bool) (nbTemps nbGlobals : ℕ) (st : BlockState)
    (ops : List TempOp) : Option BlockState :=
  ops.foldlM (fun st op => op.step isLocal nbTemps nbGlobals st) st

/-- The ops as `tcg_constant_folding` passes them on: the temps a move names
are temps of the block, and a move of a temp to itself has become a nop. -/
def TempOp.WellFormed (nbTemps : ℕ) : TempOp → Prop
  | .mov _ dst src => dst < nbTemps ∧ src < nbTemps ∧ dst ≠ src
  | _ => True

/-- A move between temps of its own type, and a constant into a temp of its
type. -/
def TempOp.Typed (baseType : ℕ → TcgType) : TempOp → Prop
  | .mov ty dst src => baseType dst = ty ∧ baseType src = ty
  | .movi ty dst _ => baseType dst = ty
  | _ => True

/-- Every `COPY` has the type of the temp it names. -/
def SameType (baseType : ℕ → TcgType) (temps : TcgTemps) : Prop :=
  ∀ t, temps.state t = .copy → baseType t = baseType (temps.val t)

/-- What the optimizer believes holds at run time, in the low `bits t` bits
of each temp `t`: a `COPY` holds its representative's value, a `CONST` its
`val`. -/
def Agrees (bits : ℕ → ℕ) (st : BlockState) : Prop :=
  ∀ t, (st.temps.state t = .copy →
      st.values t ≡ st.values (st.temps.val t) [MOD 2 ^ bits t]) ∧
    (st.temps.state t = .const → st.values t ≡ st.temps.val t [MOD 2 ^ bits t])

@[simp] theorem runTempOps_nil {isLocal : ℕ → Bool} (st : BlockState) :
    runTempOps isLocal nbTemps nbGlobals st [] = some st := rfl

theorem copyInv_cleared : CopyInv nbTemps nbGlobals TcgTemps.cleared :=
  ⟨fun _ h => (by cases h), fun _ h => (by cases h), fun _ h => (by cases h)⟩

/-- One op keeps the invariant. -/
theorem copyInv_step {isLocal : ℕ → Bool} {st st' : BlockState} {op : TempOp}
    (h : CopyInv nbTemps nbGlobals st.temps) (hop : op.WellFormed nbTemps)
    (hstep : op.step isLocal nbTemps nbGlobals st = some st') :
    CopyInv nbTemps nbGlobals st'.temps := by
  cases op with
  | write t v =>
    obtain ⟨T, hT, hinv, -⟩ := copyInv_resetTemp h t
    simp only [TempOp.step, hT, Option.map_some, Option.some.injEq] at hstep
    rw [← hstep]
    exact hinv
  | mov ty dst src =>
    obtain ⟨hd, hs, hne⟩ := hop
    simp only [TempOp.step, Option.map_eq_some_iff] at hstep
    obtain ⟨T, hT, rfl⟩ := hstep
    exact copyInv_tcgOptGenMov h hne hd hs hT
  | movi ty dst val =>
    obtain ⟨T, hT, hinv, -⟩ := copyInv_tcgOptGenMovi h dst val
    simp only [TempOp.step, hT, Option.map_some, Option.some.injEq] at hstep
    rw [← hstep]
    exact hinv
  | clear =>
    simp only [TempOp.step, Option.some.injEq] at hstep
    rw [← hstep]
    exact copyInv_cleared

/-- The invariant holds at every op boundary of every run of a block. -/
theorem copyInv_runTempOps {isLocal : ℕ → Bool} {st st' : BlockState} {ops : List TempOp}
    (h : CopyInv nbTemps nbGlobals st.temps) (hops : ∀ op ∈ ops, op.WellFormed nbTemps)
    (hrun : runTempOps isLocal nbTemps nbGlobals st ops = some st') :
    CopyInv nbTemps nbGlobals st'.temps :=
  foldlM_invariant_of_eq_some (fun (st : BlockState) (op : TempOp) =>
      op.step isLocal nbTemps nbGlobals st)
    (fun st => CopyInv nbTemps nbGlobals st.temps) (fun op => op.WellFormed nbTemps)
    (fun _ _ _ hop h hstep => copyInv_step h hop hstep) h ops hops hrun

/-! ## What the invariant means at run time -/

/-- The invariant with what it means at run time, for temps of the types
`baseType` gives. -/
structure Sound (nbTemps nbGlobals : ℕ) (baseType : ℕ → TcgType) (st : BlockState) :
    Prop where
  inv : CopyInv nbTemps nbGlobals st.temps
  sameType : SameType baseType st.temps
  agrees : Agrees (fun t => (baseType t).bits) st

variable {baseType : ℕ → TcgType} {st : BlockState} {T : TcgTemps}

/-- After `reset_temp(temp)` the op may write any value to `temp`: what the
optimizer still believes holds. A copy whose representative was reset now
names the new base, which held the same value in the same type. -/
theorem Sound.of_resetTemp (h : Sound nbTemps nbGlobals baseType st)
    (hT : resetTemp st.temps temp nbTemps nbGlobals = some T) (v : ℕ) :
    Sound nbTemps nbGlobals baseType ⟨T, update st.values temp v⟩ := by
  obtain ⟨T', hT', hinv, hany⟩ := copyInv_resetTemp h.inv temp
  rw [hT'] at hT
  cases hT
  -- a `COPY` names a `HAS_COPY` temp, so not `temp`
  have hval : ∀ t, T.state t = .copy → T.val t ≠ temp := by
    intro t ht he
    obtain ⟨l, hc, -⟩ := hinv.copy t ht
    have := hc.rep
    rw [he, hany] at this
    cases this
  have hne : ∀ t, T.state t = .copy ∨ T.state t = .const → t ≠ temp := by
    rintro t ht rfl
    rcases ht with ht | ht <;> simp [hany] at ht
  refine ⟨hinv, fun t ht => ?_, fun t => ⟨fun ht => ?_, fun ht => ?_⟩⟩ <;>
    dsimp only at ht ⊢
  · obtain ⟨hst, hv | ⟨-, hvt, hsy, hvy⟩⟩ := resetTemp_val_of_known h.inv hT' (.inl ht)
    · rw [hv]
      exact h.sameType t (hst ▸ ht)
    · -- both were copies of `temp`
      have h1 := h.sameType t (hst ▸ ht)
      have h2 := h.sameType (T.val t) hsy
      rw [hvt] at h1
      rw [hvy] at h2
      exact h1.trans h2.symm
  · obtain ⟨hst, hv | ⟨-, hvt, hsy, hvy⟩⟩ := resetTemp_val_of_known h.inv hT' (.inl ht)
    · have h1 := (h.agrees t).1 (hst ▸ ht)
      rw [← hv] at h1
      simpa [hne t (.inl ht), hval t ht] using h1
    · -- both held the value of `temp`, in as many bits
      have h1 := (h.agrees t).1 (hst ▸ ht)
      have h2 := (h.agrees (T.val t)).1 hsy
      have hty : baseType t = baseType (T.val t) := by
        rw [h.sameType t (hst ▸ ht), h.sameType _ hsy, hvt, hvy]
      dsimp only at h1 h2
      rw [hvt] at h1
      rw [hvy, ← hty] at h2
      simpa [hne t (.inl ht), hval t ht] using h1.trans h2.symm
  · obtain ⟨hst, hv | ⟨hc, -⟩⟩ := resetTemp_val_of_known h.inv hT' (.inr ht)
    · have h1 := (h.agrees t).2 (hst ▸ ht)
      rw [← hv] at h1
      simpa [hne t (.inr ht)] using h1
    · rw [← hst, ht] at hc
      cases hc

theorem sound_cleared (values : ℕ → ℕ) :
    Sound nbTemps nbGlobals baseType ⟨.cleared, values⟩ :=
  ⟨copyInv_cleared, fun _ h => (by cases h),
    fun _ => ⟨fun h => (by cases h), fun h => (by cases h)⟩⟩

/-- `tcg_opt_gen_mov` between temps of the move's type. -/
theorem Sound.of_tcgOptGenMov {isLocal : ℕ → Bool} {ty : TcgType}
    (h : Sound nbTemps nbGlobals baseType st) (hne : dst ≠ src) (hd : dst < nbTemps)
    (hs : src < nbTemps) (htd : baseType dst = ty) (hts : baseType src = ty)
    (hmov : tcgOptGenMov isLocal st.temps dst src nbTemps nbGlobals = some T) :
    Sound nbTemps nbGlobals baseType
      ⟨T, update st.values dst (st.values src % 2 ^ ty.bits)⟩ := by
  obtain ⟨T₀, hT₀, -, hcases⟩ := tcgOptGenMov_cases hmov
  have hr := h.of_resetTemp hT₀ (st.values src % 2 ^ ty.bits)
  rcases hcases with ⟨-, -, rfl⟩ | ⟨-, rfl⟩
  · -- `dst` joins the class of `src`: it holds the value of `src`, in its type
    have hother : ∀ t, t ≠ dst → t ≠ src →
        (spliceCopy (makeRep T₀ src) dst src).state t = T₀.state t ∧
        (spliceCopy (makeRep T₀ src) dst src).val t = T₀.val t := by
      intro t htd' hts'
      simp [htd', makeRep_state_of_ne hts']
    have hsrc : (spliceCopy (makeRep T₀ src) dst src).state src = .hasCopy := by
      simp [Ne.symm hne]
    refine ⟨copyInv_tcgOptGenMov h.inv hne hd hs hmov, fun t ht => ?_,
      fun t => ⟨fun ht => ?_, fun ht => ?_⟩⟩ <;> dsimp only at ht ⊢
    · by_cases htd' : t = dst
      · subst htd'
        simp [htd, hts]
      · have hts' : t ≠ src := by
          rintro rfl
          rw [hsrc] at ht
          cases ht
        obtain ⟨h1, h2⟩ := hother t htd' hts'
        rw [h2]
        exact hr.sameType t (h1 ▸ ht)
    · by_cases htd' : t = dst
      · subst htd'
        simp only [spliceCopy_val, update_self, update_of_ne (Ne.symm hne), htd]
        exact Nat.mod_modEq _ _
      · have hts' : t ≠ src := by
          rintro rfl
          rw [hsrc] at ht
          cases ht
        obtain ⟨h1, h2⟩ := hother t htd' hts'
        rw [h2]
        exact (hr.agrees t).1 (h1 ▸ ht)
    · have htd' : t ≠ dst := by
        rintro rfl
        simp at ht
      have hts' : t ≠ src := by
        rintro rfl
        rw [hsrc] at ht
        cases ht
      obtain ⟨h1, h2⟩ := hother t htd' hts'
      rw [h2]
      exact (hr.agrees t).2 (h1 ▸ ht)
  · exact hr

/-- `tcg_opt_gen_movi` into a temp of the constant's type. -/
theorem Sound.of_tcgOptGenMovi {ty : TcgType} {val : ℕ} (h : Sound nbTemps nbGlobals baseType st)
    (htd : baseType dst = ty) (hmovi : tcgOptGenMovi st.temps dst val nbTemps nbGlobals = some T) :
    Sound nbTemps nbGlobals baseType ⟨T, update st.values dst (val % 2 ^ ty.bits)⟩ := by
  obtain ⟨T₀, hT₀, hinv, -⟩ := copyInv_tcgOptGenMovi h.inv dst val
  rw [hT₀] at hmovi
  cases hmovi
  rw [tcgOptGenMovi_eq, Option.map_eq_some_iff] at hT₀
  obtain ⟨T₁, hT₁, rfl⟩ := hT₀
  have hr := h.of_resetTemp hT₁ (val % 2 ^ ty.bits)
  refine ⟨hinv, fun t ht => ?_, fun t => ⟨fun ht => ?_, fun ht => ?_⟩⟩ <;>
    dsimp only at ht ⊢
  · have htd' : t ≠ dst := by
      rintro rfl
      simp at ht
    simp only [setVal_state, setState_state, update_of_ne htd'] at ht
    simpa [htd'] using hr.sameType t ht
  · have htd' : t ≠ dst := by
      rintro rfl
      simp at ht
    simp only [setVal_state, setState_state, update_of_ne htd'] at ht
    simpa [htd'] using (hr.agrees t).1 ht
  · by_cases htd' : t = dst
    · subst htd'
      simp only [setVal_val, update_self, htd]
      exact Nat.mod_modEq _ _
    · simp only [setVal_state, setState_state, update_of_ne htd'] at ht
      simpa [htd'] using (hr.agrees t).2 ht

/-- One typed op keeps the invariant and its meaning. -/
theorem Sound.step {isLocal : ℕ → Bool} {st' : BlockState} {op : TempOp}
    (h : Sound nbTemps nbGlobals baseType st) (hop : op.WellFormed nbTemps)
    (hty : op.Typed baseType) (hstep : op.step isLocal nbTemps nbGlobals st = some st') :
    Sound nbTemps nbGlobals baseType st' := by
  cases op with
  | write t v =>
    simp only [TempOp.step, Option.map_eq_some_iff] at hstep
    obtain ⟨T, hT, rfl⟩ := hstep
    exact h.of_resetTemp hT v
  | mov ty dst src =>
    simp only [TempOp.step, Option.map_eq_some_iff] at hstep
    obtain ⟨T, hT, rfl⟩ := hstep
    exact h.of_tcgOptGenMov hop.2.2 hop.1 hop.2.1 hty.1 hty.2 hT
  | movi ty dst val =>
    simp only [TempOp.step, Option.map_eq_some_iff] at hstep
    obtain ⟨T, hT, rfl⟩ := hstep
    exact h.of_tcgOptGenMovi hty hT
  | clear =>
    simp only [TempOp.step, Option.some.injEq] at hstep
    rw [← hstep]
    exact sound_cleared _

/-- Over a run whose moves stay within one type, the optimizer's beliefs
hold at every op boundary. -/
theorem sound_runTempOps {isLocal : ℕ → Bool} {st' : BlockState} {ops : List TempOp}
    (h : Sound nbTemps nbGlobals baseType st)
    (hops : ∀ op ∈ ops, op.WellFormed nbTemps ∧ op.Typed baseType)
    (hrun : runTempOps isLocal nbTemps nbGlobals st ops = some st') :
    Sound nbTemps nbGlobals baseType st' :=
  foldlM_invariant_of_eq_some (fun (st : BlockState) (op : TempOp) =>
      op.step isLocal nbTemps nbGlobals st)
    (Sound nbTemps nbGlobals baseType) (fun op => op.WellFormed nbTemps ∧ op.Typed baseType)
    (fun _ _ _ hop h hstep => h.step hop.1 hop.2 hstep) h ops hops hrun

/-! ## A move across types -/

/-- The temps of a block on a 64-bit host: `0` is the global `env`, `1` and
`2` are `i64` temps, `3` is an `i32` temp. -/
def truncType (t : ℕ) : TcgType :=
  if t = 3 then .i32 else .i64

/-- `mov_i64 2, 1`; then `tcg_gen_trunc_i64_i32(3, 1)`, which a 64-bit host
emits as `mov_i32 3, 1`; then `movi_i64 1, 0`. -/
def truncOps : List TempOp :=
  [.mov .i64 2 1, .mov .i32 3 1, .movi .i64 1 0]

/-- Temp `1` holds `2^32`, a value with a bit above the low 32. -/
def truncStart : BlockState :=
  ⟨.cleared, fun t => if t = 1 then 2 ^ 32 else 0⟩

theorem truncMov_copy_disagrees :
    (∀ (isLocal : ℕ → Bool) (nbTemps nbGlobals : ℕ) (st st' : BlockState)
      (ops : List TempOp),
      CopyInv nbTemps nbGlobals st.temps → (∀ op ∈ ops, op.WellFormed nbTemps) →
      runTempOps isLocal nbTemps nbGlobals st ops = some st' →
      CopyInv nbTemps nbGlobals st'.temps) ∧
    (∀ (isLocal : ℕ → Bool) (nbTemps nbGlobals : ℕ) (baseType : ℕ → TcgType)
      (st st' : BlockState) (ops : List TempOp),
      Sound nbTemps nbGlobals baseType st →
      (∀ op ∈ ops, op.WellFormed nbTemps ∧ op.Typed baseType) →
      runTempOps isLocal nbTemps nbGlobals st ops = some st' →
      Sound nbTemps nbGlobals baseType st') ∧
    ∃ st, runTempOps (fun _ => false) 4 1 truncStart truncOps = some st ∧
      st.temps.state 2 = .copy ∧ st.temps.val 2 = 3 ∧ st.values 2 = 2 ^ 32 ∧
      st.values 3 = 0 ∧ ¬Agrees (fun t => (truncType t).bits) st := by
  refine ⟨fun _ _ _ _ _ _ h hops hrun => copyInv_runTempOps h hops hrun,
    fun _ _ _ _ _ _ _ h hops hrun => sound_runTempOps h hops hrun, ?_⟩
  -- the reset of `1` elects `3`, the copy linked last, for the class of `2`
  have hrun : (runTempOps (fun _ => false) 4 1 truncStart truncOps).map
      (fun st => (st.temps.state 2, st.temps.val 2, st.values 2, st.values 3)) =
      some (.copy, 3, 2 ^ 32, 0) := by
    decide
  obtain ⟨st, hst, heq⟩ := Option.map_eq_some_iff.mp hrun
  simp only [Prod.mk.injEq] at heq
  obtain ⟨h1, h2, h3, h4⟩ := heq
  refine ⟨st, hst, h1, h2, h3, h4, fun hag => ?_⟩
  have hcopy := (hag 2).1 h1
  rw [h2, h3, h4] at hcopy
  exact absurd hcopy (by decide)

end QemuKvm.Tcg
