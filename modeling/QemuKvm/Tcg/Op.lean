import Mathlib.Data.BitVec
import Mathlib.Logic.Function.Basic

/-!
# TCG ops and the routines that emit them

The TCG front end builds a translation block by calling the `tcg_gen_*`
routines of tcg/tcg-op.h. Each allocates temps (`tcg_temp_new_*`,
`tcg_const_*`) and appends ops to the op buffer. This module models

* the ops the generic expansions emit (`TcgOp`) with the meaning tcg/README
  gives them (`TcgOp.exec`): a shift by a count outside `[0, w)` is
  undefined, which is `none` here, and a run of ops (`run`) is undefined as
  soon as one of its ops is (`exec_eq_none_iff` says that nothing else is);
* a routine as a function of the number of temps allocated so far
  (`nb_temps`) to its value, the number of temps it allocated and the ops it
  appended (`TcgGen`). A fresh temp is the next index, so every temp a
  routine allocates lies above the variables its caller passed in;
* the basic routines (`tcgGenMov`, `tcgConst`, `tcgGenSubfi`, `tcgGenAnd`,
  `tcgGenAndiI32`, the shifts by a temp and by an immediate), each with a
  spec lemma in the form `Sets`: the ops run without an undefined op, leave
  the routine's value in `ret` and every other temp below the allocation
  mark as it was.

The width is a parameter: `TcgOp 32` for the `_i32` routines and for the
halves of an `_i64` value on a 32-bit host, `TcgOp 64` for the `_i64`
routines of a 64-bit host, which have the same shape as the `_i32` ones
unless a definition below says otherwise. The source keeps freed temps on a
free list for reuse; here every allocation takes a fresh index, which is as
good as a dead recycled one for what the ops compute.
-/

namespace QemuKvm.Tcg

open Function

variable {w : ℕ}

/-! ## Ops -/

/-- The three shifts of tcg/README. -/
inductive ShiftKind where
  | shl | shr | sar
  deriving DecidableEq, Repr

/-- What a shift does to a word, for a count below the width. -/
def ShiftKind.apply : ShiftKind → BitVec w → ℕ → BitVec w
  | .shl, x, c => x <<< c
  | .shr, x, c => x >>> c
  | .sar, x, c => x.sshiftRight c

@[simp] theorem ShiftKind.apply_shl (x : BitVec w) (c : ℕ) : ShiftKind.shl.apply x c = x <<< c :=
  rfl

@[simp] theorem ShiftKind.apply_shr (x : BitVec w) (c : ℕ) : ShiftKind.shr.apply x c = x >>> c :=
  rfl

@[simp] theorem ShiftKind.apply_sar (x : BitVec w) (c : ℕ) :
    ShiftKind.sar.apply x c = x.sshiftRight c :=
  rfl

@[simp] theorem ShiftKind.apply_zero (k : ShiftKind) (x : BitVec w) : k.apply x 0 = x := by
  cases k <;> simp [BitVec.shiftLeft_zero, BitVec.ushiftRight_zero]

/-- The bitwise ops whose routines turn equal operands into a mov. -/
inductive LogicKind where
  | and | or
  deriving DecidableEq, Repr

def LogicKind.apply : LogicKind → BitVec w → BitVec w → BitVec w
  | .and, x, y => x &&& y
  | .or, x, y => x ||| y

@[simp] theorem LogicKind.apply_self (k : LogicKind) (x : BitVec w) : k.apply x x = x := by
  cases k <;> simp [LogicKind.apply]

/-- The ops the generic expansions emit (`INDEX_op_*_i32` / `_i64`); an
operand is a temp index. -/
inductive TcgOp (w : ℕ) where
  | mov (ret arg : ℕ)
  | movi (ret : ℕ) (arg : BitVec w)
  | sub (ret arg1 arg2 : ℕ)
  | logic (k : LogicKind) (ret arg1 arg2 : ℕ)
  | shift (k : ShiftKind) (ret arg1 arg2 : ℕ)
  deriving DecidableEq, Repr

/-- The values of the temps. -/
abbrev Temps (w : ℕ) := ℕ → BitVec w

/-- One op. tcg/README: a shift is undefined if its count is `< 0` or
`>= 32` (resp. 64), that is, if the count word read unsigned is not below
the width. -/
def TcgOp.exec : TcgOp w → Temps w → Option (Temps w)
  | .mov ret arg, s => some (update s ret (s arg))
  | .movi ret arg, s => some (update s ret arg)
  | .sub ret arg1 arg2, s => some (update s ret (s arg1 - s arg2))
  | .logic k ret arg1 arg2, s => some (update s ret (k.apply (s arg1) (s arg2)))
  | .shift k ret arg1 arg2, s =>
    if (s arg2).toNat < w then some (update s ret (k.apply (s arg1) (s arg2).toNat)) else none

/-- Ops in order; undefined as soon as one op is. -/
def run : List (TcgOp w) → Temps w → Option (Temps w)
  | [], s => some s
  | op :: ops, s => (op.exec s).bind (run ops)

@[simp] theorem run_nil (s : Temps w) : run [] s = some s := rfl

@[simp] theorem run_cons (op : TcgOp w) (ops : List (TcgOp w)) (s : Temps w) :
    run (op :: ops) s = (op.exec s).bind (run ops) := rfl

theorem run_append (ops ops' : List (TcgOp w)) (s : Temps w) :
    run (ops ++ ops') s = (run ops s).bind (run ops') := by
  induction ops generalizing s with
  | nil => rfl
  | cons op ops ih =>
    cases h : op.exec s with
    | none => simp [h]
    | some s₁ => simp [h, ih]

/-- The only undefined op is a shift by a count outside `[0, w)`. -/
theorem TcgOp.exec_eq_none_iff (op : TcgOp w) (s : Temps w) :
    op.exec s = none ↔ ∃ k ret arg1 arg2, op = .shift k ret arg1 arg2 ∧ w ≤ (s arg2).toNat := by
  cases op with
  | shift k ret arg1 arg2 =>
    simp only [TcgOp.exec, ite_eq_right_iff, reduceCtorEq, imp_false, not_lt, shift.injEq]
    constructor
    · intro h
      exact ⟨k, ret, arg1, arg2, ⟨rfl, rfl, rfl, rfl⟩, h⟩
    · rintro ⟨_, _, _, _, ⟨rfl, rfl, rfl, rfl⟩, h⟩
      exact h
  | mov | movi | sub | logic => simp [TcgOp.exec]

@[simp] theorem exec_shift_of_lt (k : ShiftKind) (ret arg1 arg2 : ℕ) {s : Temps w}
    (h : (s arg2).toNat < w) :
    (TcgOp.shift k ret arg1 arg2).exec s =
      some (update s ret (k.apply (s arg1) (s arg2).toNat)) := by
  simp [TcgOp.exec, h]

@[simp] theorem exec_shift_of_le (k : ShiftKind) (ret arg1 arg2 : ℕ) {s : Temps w}
    (h : w ≤ (s arg2).toNat) : (TcgOp.shift k ret arg1 arg2).exec s = none := by
  simp [TcgOp.exec, Nat.not_lt.2 h]

/-! ## Routines -/

/-- What a routine leaves behind: its value, how many temps it allocated and
the ops it appended. -/
structure Emitted (w : ℕ) (α : Type) where
  val : α
  temps : ℕ
  ops : List (TcgOp w)

/-- A routine of the front end. -/
structure TcgGen (w : ℕ) (α : Type) where
  /-- What the routine does when `nbTemps` temps are already allocated. -/
  emit (nbTemps : ℕ) : Emitted w α

instance : Monad (TcgGen w) where
  pure a := ⟨fun _ => ⟨a, 0, []⟩⟩
  bind g f := ⟨fun n =>
    let e := g.emit n
    let e' := (f e.val).emit (n + e.temps)
    ⟨e'.val, e.temps + e'.temps, e.ops ++ e'.ops⟩⟩

section Monad

variable {α β : Type}

@[simp] theorem pure_emit (a : α) (n : ℕ) : (pure a : TcgGen w α).emit n = ⟨a, 0, []⟩ := rfl

@[simp] theorem bind_emit (g : TcgGen w α) (f : α → TcgGen w β) (n : ℕ) :
    (g >>= f).emit n = ⟨((f (g.emit n).val).emit (n + (g.emit n).temps)).val,
      (g.emit n).temps + ((f (g.emit n).val).emit (n + (g.emit n).temps)).temps,
      (g.emit n).ops ++ ((f (g.emit n).val).emit (n + (g.emit n).temps)).ops⟩ := rfl

theorem run_bind_emit (g : TcgGen w α) (f : α → TcgGen w β) (n : ℕ) (s : Temps w) :
    run ((g >>= f).emit n).ops s =
      (run (g.emit n).ops s).bind (run ((f (g.emit n).val).emit (n + (g.emit n).temps)).ops) := by
  rw [bind_emit, run_append]

@[simp] theorem ite_emit (c : Prop) [Decidable c] (g g' : TcgGen w α) (n : ℕ) :
    (if c then g else g').emit n = if c then g.emit n else g'.emit n := by
  split <;> rfl

end Monad

/-- Append one op (`tcg_gen_op2_*`, `tcg_gen_op3_*`). -/
def tcgEmit (op : TcgOp w) : TcgGen w Unit := ⟨fun _ => ⟨(), 0, [op]⟩⟩

/-- tcg_temp_new_i32 (and tcg_temp_new_i64 on a 64-bit host): the next index. -/
def tcgTempNew : TcgGen w ℕ := ⟨fun n => ⟨n, 1, []⟩⟩

@[simp] theorem tcgEmit_emit (op : TcgOp w) (n : ℕ) : (tcgEmit op).emit n = ⟨(), 0, [op]⟩ := rfl

@[simp] theorem tcgTempNew_emit (n : ℕ) : (tcgTempNew : TcgGen w ℕ).emit n = ⟨n, 1, []⟩ := rfl

def tcgGenMovi (ret : ℕ) (arg : BitVec w) : TcgGen w Unit := tcgEmit (.movi ret arg)

/-- tcg_const_i32: a fresh temp holding `val`. -/
def tcgConst (val : BitVec w) : TcgGen w ℕ := do
  let t0 ← tcgTempNew
  tcgGenMovi t0 val
  return t0

@[simp] theorem tcgConst_emit (val : BitVec w) (n : ℕ) :
    (tcgConst val).emit n = ⟨n, 1, [.movi n val]⟩ := rfl

def tcgGenMov (ret arg : ℕ) : TcgGen w Unit :=
  if ret ≠ arg then tcgEmit (.mov ret arg) else pure ()

def tcgGenSub (ret arg1 arg2 : ℕ) : TcgGen w Unit := tcgEmit (.sub ret arg1 arg2)

def tcgGenSubfi (ret : ℕ) (arg1 : BitVec w) (arg2 : ℕ) : TcgGen w Unit := do
  let t0 ← tcgConst arg1
  tcgGenSub ret t0 arg2

@[simp] theorem tcgGenMovi_emit (ret : ℕ) (arg : BitVec w) (n : ℕ) :
    (tcgGenMovi ret arg).emit n = ⟨(), 0, [.movi ret arg]⟩ := rfl

@[simp] theorem tcgGenSubfi_emit (ret : ℕ) (arg1 : BitVec w) (arg2 n : ℕ) :
    (tcgGenSubfi ret arg1 arg2).emit n = ⟨(), 1, [.movi n arg1, .sub ret n arg2]⟩ := rfl

@[simp] theorem tcgGenMov_temps (ret arg n : ℕ) :
    ((tcgGenMov ret arg : TcgGen w Unit).emit n).temps = 0 := by
  by_cases h : ret = arg <;> simp [tcgGenMov, h]

/-- tcg_gen_and_i32 and tcg_gen_or_i32: equal operands give a mov. -/
def tcgGenLogic (k : LogicKind) (ret arg1 arg2 : ℕ) : TcgGen w Unit :=
  if arg1 = arg2 then tcgGenMov ret arg1 else tcgEmit (.logic k ret arg1 arg2)

@[simp] theorem tcgGenLogic_temps (k : LogicKind) (ret arg1 arg2 n : ℕ) :
    ((tcgGenLogic k ret arg1 arg2 : TcgGen w Unit).emit n).temps = 0 := by
  by_cases h : arg1 = arg2 <;> simp [tcgGenLogic, h]

def tcgGenAnd (ret arg1 arg2 : ℕ) : TcgGen w Unit := tcgGenLogic .and ret arg1 arg2

def tcgGenOr (ret arg1 arg2 : ℕ) : TcgGen w Unit := tcgGenLogic .or ret arg1 arg2

/-- tcg_gen_andi_i32: the masks `0` and `0xffffffff` need no op of their own. -/
def tcgGenAndiI32 (ret arg1 : ℕ) (arg2 : BitVec 32) : TcgGen 32 Unit :=
  if arg2 = 0 then tcgGenMovi ret 0
  else if arg2 = 0xffffffff then tcgGenMov ret arg1
  else do
    let t0 ← tcgConst arg2
    tcgGenAnd ret arg1 t0

/-- tcg_gen_andi_i64 on a 64-bit host: always through a constant temp. -/
def tcgGenAndiI64 (ret arg1 : ℕ) (arg2 : BitVec 64) : TcgGen 64 Unit := do
  let t0 ← tcgConst arg2
  tcgGenAnd ret arg1 t0

/-- tcg_gen_shl_i32, tcg_gen_shr_i32, tcg_gen_sar_i32. -/
def tcgGenShift (k : ShiftKind) (ret arg1 arg2 : ℕ) : TcgGen w Unit :=
  tcgEmit (.shift k ret arg1 arg2)

@[simp] theorem tcgGenShift_emit (k : ShiftKind) (ret arg1 arg2 n : ℕ) :
    (tcgGenShift k ret arg1 arg2).emit n = (⟨(), 0, [.shift k ret arg1 arg2]⟩ : Emitted w Unit) :=
  rfl

def tcgGenShl (ret arg1 arg2 : ℕ) : TcgGen w Unit := tcgGenShift .shl ret arg1 arg2

def tcgGenShr (ret arg1 arg2 : ℕ) : TcgGen w Unit := tcgGenShift .shr ret arg1 arg2

/-- tcg_gen_shli_i32, tcg_gen_shri_i32, tcg_gen_sari_i32: a zero count is a
mov, any other goes through a constant temp. -/
def tcgGenShiftImm (k : ShiftKind) (ret arg1 : ℕ) (arg2 : BitVec w) : TcgGen w Unit :=
  if arg2 = 0 then tcgGenMov ret arg1
  else do
    let t0 ← tcgConst arg2
    tcgGenShift k ret arg1 t0

theorem tcgGenShiftImm_emit_of_ne (k : ShiftKind) (ret arg1 : ℕ) {arg2 : BitVec w}
    (h0 : arg2 ≠ 0) (n : ℕ) :
    (tcgGenShiftImm k ret arg1 arg2).emit n = ⟨(), 1, [.movi n arg2, .shift k ret arg1 n]⟩ := by
  rw [tcgGenShiftImm, if_neg h0]
  rfl

def tcgGenShli (ret arg1 : ℕ) (arg2 : BitVec w) : TcgGen w Unit := tcgGenShiftImm .shl ret arg1 arg2

def tcgGenShri (ret arg1 : ℕ) (arg2 : BitVec w) : TcgGen w Unit := tcgGenShiftImm .shr ret arg1 arg2

def tcgGenSari (ret arg1 : ℕ) (arg2 : BitVec w) : TcgGen w Unit := tcgGenShiftImm .sar ret arg1 arg2

/-! ## Specs of the basic routines -/

/-- `ops` run from `s` without an undefined op, end with `v` in `ret` and
leave every other temp below `n` as it was. -/
def Sets (ops : List (TcgOp w)) (n ret : ℕ) (v : BitVec w) (s : Temps w) : Prop :=
  ∃ s', run ops s = some s' ∧ s' ret = v ∧ ∀ t < n, t ≠ ret → s' t = s t

theorem Sets.mono {ops : List (TcgOp w)} {n m ret : ℕ} {v : BitVec w} {s : Temps w}
    (h : Sets ops n ret v s) (hm : m ≤ n) : Sets ops m ret v s := by
  obtain ⟨s', r, hv, hf⟩ := h
  exact ⟨s', r, hv, fun t ht hne => hf t (by omega) hne⟩

/-- Sequencing: `g` writes `a` and keeps every other temp below `b`; what
follows runs from there. The whole keeps the temps below `m ≤ b` as long as
`a` is the final target or lies at or above `m`. -/
theorem Sets.bind {α β : Type} {g : TcgGen w α} {f : α → TcgGen w β} {n m b a r : ℕ}
    {u v : BitVec w} {s : Temps w} (hg : Sets (g.emit n).ops b a u s) (hm : m ≤ b)
    (ha : a = r ∨ m ≤ a)
    (hf : ∀ s₁ : Temps w, s₁ a = u → (∀ t < b, t ≠ a → s₁ t = s t) →
      Sets ((f (g.emit n).val).emit (n + (g.emit n).temps)).ops m r v s₁) :
    Sets ((g >>= f).emit n).ops m r v s := by
  obtain ⟨s₁, r₁, hv₁, hf₁⟩ := hg
  obtain ⟨s₂, r₂, hv₂, hf₂⟩ := hf s₁ hv₁ hf₁
  refine ⟨s₂, by rw [run_bind_emit, r₁, Option.bind_some, r₂], hv₂, ?_⟩
  intro t ht hne
  have hta : t ≠ a := by
    rcases ha with rfl | ha
    · exact hne
    · omega
  rw [hf₂ t ht hne, hf₁ t (by omega) hta]

/-- A fresh temp emits nothing: it is the index `n`, and what follows starts at `n + 1`. -/
theorem Sets.tempNew {f : ℕ → TcgGen w Unit} {n m r : ℕ} {v : BitVec w} {s : Temps w}
    (h : Sets ((f n).emit (n + 1)).ops m r v s) : Sets ((tcgTempNew >>= f).emit n).ops m r v s := by
  simpa using h

/-- One op that writes `ret` with `v`. -/
theorem sets_single {op : TcgOp w} {n ret : ℕ} {v : BitVec w} {s : Temps w}
    (h : op.exec s = some (update s ret v)) : Sets [op] n ret v s := by
  refine ⟨update s ret v, by simp [h], by simp, ?_⟩
  intro t _ hne
  exact update_of_ne hne _ _

/-- A write of `ret` after one of a temp at or above `n`. -/
theorem sets_pair {op op' : TcgOp w} {n ret : ℕ} {a v : BitVec w} {s : Temps w}
    (h : op.exec s = some (update s n a))
    (h' : op'.exec (update s n a) = some (update (update s n a) ret v)) :
    Sets [op, op'] n ret v s := by
  refine ⟨update (update s n a) ret v, by simp [h, h'], by simp, ?_⟩
  intro t ht hne
  rw [update_of_ne hne, update_of_ne (Nat.ne_of_lt ht)]

theorem tcgGenMovi_sets (ret n : ℕ) (arg : BitVec w) (s : Temps w) :
    Sets ((tcgGenMovi ret arg).emit n).ops n ret arg s :=
  sets_single rfl

theorem tcgGenMov_sets (ret arg n : ℕ) (s : Temps w) :
    Sets ((tcgGenMov ret arg).emit n).ops n ret (s arg) s := by
  by_cases h : ret = arg
  · -- `ret` already holds the value: nothing is emitted
    subst h
    refine ⟨s, ?_, rfl, fun _ _ _ => rfl⟩
    simp [tcgGenMov]
  · simpa [tcgGenMov, h] using @sets_single w (.mov ret arg) n ret (s arg) s rfl

theorem tcgGenSubfi_sets (ret : ℕ) (arg1 : BitVec w) {arg2 n : ℕ} (h2 : arg2 < n)
    (s : Temps w) : Sets ((tcgGenSubfi ret arg1 arg2).emit n).ops n ret (arg1 - s arg2) s := by
  have hne : arg2 ≠ n := Nat.ne_of_lt h2
  apply sets_pair (a := arg1) rfl
  simp [TcgOp.exec, update_of_ne hne]

theorem tcgGenLogic_sets (k : LogicKind) (ret arg1 arg2 n : ℕ) (s : Temps w) :
    Sets ((tcgGenLogic k ret arg1 arg2).emit n).ops n ret (k.apply (s arg1) (s arg2)) s := by
  by_cases h : arg1 = arg2
  · subst h
    simpa [tcgGenLogic] using tcgGenMov_sets ret arg1 n s
  · simpa [tcgGenLogic, h] using
      @sets_single w (.logic k ret arg1 arg2) n ret (k.apply (s arg1) (s arg2)) s rfl

theorem tcgGenAnd_sets (ret arg1 arg2 n : ℕ) (s : Temps w) :
    Sets ((tcgGenAnd ret arg1 arg2).emit n).ops n ret (s arg1 &&& s arg2) s :=
  tcgGenLogic_sets .and ret arg1 arg2 n s

theorem tcgGenOr_sets (ret arg1 arg2 n : ℕ) (s : Temps w) :
    Sets ((tcgGenOr ret arg1 arg2).emit n).ops n ret (s arg1 ||| s arg2) s :=
  tcgGenLogic_sets .or ret arg1 arg2 n s

/-- An and with a constant temp allocated at `n`. -/
theorem sets_and_const {ret arg1 n : ℕ} (h1 : arg1 < n) (imm : BitVec w) (s : Temps w) :
    Sets [.movi n imm, .logic .and ret arg1 n] n ret (s arg1 &&& imm) s := by
  apply sets_pair (a := imm) rfl
  simp [TcgOp.exec, LogicKind.apply, update_of_ne (Nat.ne_of_lt h1)]

theorem tcgGenAndiI32_sets (ret : ℕ) {arg1 n : ℕ} (h1 : arg1 < n) (arg2 : BitVec 32)
    (s : Temps 32) : Sets ((tcgGenAndiI32 ret arg1 arg2).emit n).ops n ret (s arg1 &&& arg2) s := by
  by_cases h0 : arg2 = 0
  · have hzero : s arg1 &&& arg2 = 0 := by simp [h0]
    rw [tcgGenAndiI32, if_pos h0, hzero]
    exact tcgGenMovi_sets ret n 0 s
  by_cases hm : arg2 = 0xffffffff
  · -- all ones: a mov
    have hall : s arg1 &&& arg2 = s arg1 := by
      rw [hm, show (0xffffffff : BitVec 32) = BitVec.allOnes 32 from rfl, BitVec.and_allOnes]
    rw [tcgGenAndiI32, if_neg h0, if_pos hm, hall]
    exact tcgGenMov_sets ret arg1 n s
  · rw [tcgGenAndiI32, if_neg h0, if_neg hm]
    rw [bind_emit, tcgConst_emit]
    simp only [tcgGenAnd, tcgGenLogic, if_neg (Nat.ne_of_lt h1), tcgEmit_emit, List.singleton_append]
    exact sets_and_const h1 arg2 s

theorem tcgGenAndiI64_sets (ret : ℕ) {arg1 n : ℕ} (h1 : arg1 < n) (arg2 : BitVec 64)
    (s : Temps 64) : Sets ((tcgGenAndiI64 ret arg1 arg2).emit n).ops n ret (s arg1 &&& arg2) s := by
  rw [tcgGenAndiI64, bind_emit, tcgConst_emit]
  simp only [tcgGenAnd, tcgGenLogic, if_neg (Nat.ne_of_lt h1), tcgEmit_emit, List.singleton_append]
  exact sets_and_const h1 arg2 s

theorem tcgGenShift_sets (k : ShiftKind) (ret arg1 arg2 n : ℕ) {s : Temps w}
    (h : (s arg2).toNat < w) :
    Sets ((tcgGenShift k ret arg1 arg2).emit n).ops n ret (k.apply (s arg1) (s arg2).toNat) s :=
  sets_single (exec_shift_of_lt k ret arg1 arg2 h)

theorem tcgGenShiftImm_sets (k : ShiftKind) (ret : ℕ) {arg1 n : ℕ} (h1 : arg1 < n)
    {arg2 : BitVec w} (h : arg2.toNat < w) (s : Temps w) :
    Sets ((tcgGenShiftImm k ret arg1 arg2).emit n).ops n ret (k.apply (s arg1) arg2.toNat) s := by
  by_cases h0 : arg2 = 0
  · subst h0
    simpa [tcgGenShiftImm] using tcgGenMov_sets ret arg1 n s
  · rw [tcgGenShiftImm, if_neg h0]
    show Sets [.movi n arg2, .shift k ret arg1 n] n ret _ s
    apply sets_pair (a := arg2) rfl
    simp [TcgOp.exec, h, update_of_ne (Nat.ne_of_lt h1)]

/-- The same for a count given as a number below the width, as the callers
pass it (`int`, `unsigned`). -/
theorem tcgGenShiftImm_sets_ofNat (k : ShiftKind) (ret : ℕ) {arg1 n c : ℕ} (h1 : arg1 < n)
    (hc : c < w) (s : Temps w) :
    Sets ((tcgGenShiftImm k ret arg1 (BitVec.ofNat w c)).emit n).ops n ret (k.apply (s arg1) c) s := by
  have hc' : (BitVec.ofNat w c).toNat = c := by
    rw [BitVec.toNat_ofNat, Nat.mod_eq_of_lt (by have := @Nat.lt_two_pow_self w; omega)]
  have h := @tcgGenShiftImm_sets w k ret arg1 n h1 (BitVec.ofNat w c) (by rw [hc']; exact hc) s
  rwa [hc'] at h

end QemuKvm.Tcg
