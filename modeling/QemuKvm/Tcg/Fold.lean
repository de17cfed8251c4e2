import QemuKvm.Lib.CArith
import QemuKvm.Lib.WordShift
import QemuKvm.Tcg.Optimize

/-!
# Constant folding in the TCG optimizer

`tcg_constant_folding` (tcg/optimize.c) replaces an op whose inputs are all
known constants by a `movi` of the result, which `do_constant_folding`
computes on the host: `do_constant_folding_2` evaluates the op with C
operators on the host word `TCGArg`, and for a 32-bit op the result is then
masked to its low 32 bits. This module models both on a 64-bit host
(`TCGArg` is `BitVec 64`), with every C shift a `CArith.shiftC`, so that a
shift by the width or more is `none`; and what tcg/README says each op
computes (`TCGOpcode.sem`), on the low `op_bits` bits of its arguments.

* `doConstantFolding_eq_sem` — for every op and arguments the folding is the
  README's result, but for a rotation whose count is `0` or not below the
  width; `doConstantFolding_eq_sem_of_isSome` — wherever the C code is
  defined, its result is the README's.
* `doConstantFolding_rotate_zero` — a rotation by `0` computes `x >> 32`
  (`x >> 64`) for `rotl` and `x << 32` (`x << 64`) for `rotr`, a shift by the
  width, where the README's result is `x`.
* `tcgFoldBinary` is the part of `tcg_constant_folding` that handles an op
  with two inputs (the swap of a constant first input, the simplifications
  `x op 0`, `x * 0`, `x & x`, `x | x`, and the folding). `tcgFoldBinary_sound`:
  whatever it puts in place of the op leaves what the op would in the low
  bits of its output, given that what the optimizer knows of the inputs
  holds. `tcgFoldBinary_rotate_zero`: with both inputs constant it does reach
  `do_constant_folding` for a rotation by `0`, since the simplification of
  `x op 0` is only tried when the first input is not a constant.
-/

namespace QemuKvm.Tcg

open CArith

/-- `TCGArg` on a 64-bit host (`tcg_target_ulong`). -/
abbrev TCGArg := BitVec 64

/-- The families of ops `do_constant_folding_2` has a case for; each is an
`_i32` and an `_i64` opcode (`CASE_OP_32_64`). -/
inductive FoldOp where
  | add | sub | mul | and | or | xor
  | shl | shr | sar | rotr | rotl
  | not | neg | andc | orc | eqv | nand | nor
  | ext8s | ext16s | ext8u | ext16u
  deriving DecidableEq, Repr

/-- The opcodes `do_constant_folding_2` has a case for: a family at a type,
and the extensions from 32 bits, which are `_i64` only. Every other opcode
reaches its `default:` and `tcg_abort`. -/
inductive TCGOpcode where
  | op (k : FoldOp) (ty : TcgType)
  | ext32s_i64
  | ext32u_i64
  deriving DecidableEq, Repr

/-- `op_bits`. -/
def TCGOpcode.bits : TCGOpcode → ℕ
  | .op _ ty => ty.bits
  | .ext32s_i64 | .ext32u_i64 => 64

/-- `do_constant_folding_2`. A cast to a 32-bit type keeps the low bits, a
32-bit unsigned value converts back to `TCGArg` by zero extension and a
signed one by sign extension. The count of a shift is its operand's value:
`(uint32_t)y` for the 32-bit `shl` and `shr`, `(int32_t)y` (read as its bits)
for `sar_i32`, and the whole word `y` or `32 - y` for the rotations. -/
def doConstantFolding2 : TCGOpcode → TCGArg → TCGArg → Option TCGArg
  | .op .add _, x, y => some (x + y)
  | .op .sub _, x, y => some (x - y)
  | .op .mul _, x, y => some (x * y)
  | .op .and _, x, y => some (x &&& y)
  | .op .or _, x, y => some (x ||| y)
  | .op .xor _, x, y => some (x ^^^ y)
  | .op .shl .i32, x, y => (shlC (x.setWidth 32) (y.setWidth 32).toNat).map (·.setWidth 64)
  | .op .shl .i64, x, y => shlC x y.toNat
  | .op .shr .i32, x, y => (shrC (x.setWidth 32) (y.setWidth 32).toNat).map (·.setWidth 64)
  | .op .shr .i64, x, y => shrC x y.toNat
  | .op .sar .i32, x, y => (sarC (x.setWidth 32) (y.setWidth 32).toNat).map (·.signExtend 64)
  | .op .sar .i64, x, y => sarC x y.toNat
  | .op .rotr .i32, x, y => do
    let hi ← shlC (x.setWidth 32) (32 - y).toNat
    let lo ← shrC (x.setWidth 32) y.toNat
    pure ((hi ||| lo).setWidth 64)
  | .op .rotr .i64, x, y => do
    let hi ← shlC x (64 - y).toNat
    let lo ← shrC x y.toNat
    pure (hi ||| lo)
  | .op .rotl .i32, x, y => do
    let hi ← shlC (x.setWidth 32) y.toNat
    let lo ← shrC (x.setWidth 32) (32 - y).toNat
    pure ((hi ||| lo).setWidth 64)
  | .op .rotl .i64, x, y => do
    let hi ← shlC x y.toNat
    let lo ← shrC x (64 - y).toNat
    pure (hi ||| lo)
  | .op .not _, x, _ => some (~~~x)
  | .op .neg _, x, _ => some (-x)
  | .op .andc _, x, y => some (x &&& ~~~y)
  | .op .orc _, x, y => some (x ||| ~~~y)
  | .op .eqv _, x, y => some (~~~(x ^^^ y))
  | .op .nand _, x, y => some (~~~(x &&& y))
  | .op .nor _, x, y => some (~~~(x ||| y))
  | .op .ext8s _, x, _ => some ((x.setWidth 8).signExtend 64)
  | .op .ext16s _, x, _ => some ((x.setWidth 16).signExtend 64)
  | .op .ext8u _, x, _ => some ((x.setWidth 8).setWidth 64)
  | .op .ext16u _, x, _ => some ((x.setWidth 16).setWidth 64)
  | .ext32s_i64, x, _ => some ((x.setWidth 32).signExtend 64)
  | .ext32u_i64, x, _ => some ((x.setWidth 32).setWidth 64)

/-- `do_constant_folding`. -/
def doConstantFolding (op : TCGOpcode) (x y : TCGArg) : Option TCGArg :=
  (doConstantFolding2 op x y).map fun res => if op.bits = 32 then res &&& 0xffffffff else res

/-! ## The ops as tcg/README defines them -/

/-- What tcg/README says the family `k` computes on `w`-bit operands; `none`
where it leaves the result undefined, a shift or rotation count outside
`[0, w)`. -/
def FoldOp.sem {w : ℕ} (k : FoldOp) (x y : BitVec w) : Option (BitVec w) :=
  match k with
  | .add => some (x + y)
  | .sub => some (x - y)
  | .mul => some (x * y)
  | .and => some (x &&& y)
  | .or => some (x ||| y)
  | .xor => some (x ^^^ y)
  | .shl => if y.toNat < w then some (x <<< y.toNat) else none
  | .shr => if y.toNat < w then some (x >>> y.toNat) else none
  | .sar => if y.toNat < w then some (x.sshiftRight y.toNat) else none
  | .rotr => if y.toNat < w then some (x.rotateRight y.toNat) else none
  | .rotl => if y.toNat < w then some (x.rotateLeft y.toNat) else none
  | .not => some (~~~x)
  | .neg => some (-x)
  | .andc => some (x &&& ~~~y)
  | .orc => some (x ||| ~~~y)
  | .eqv => some (~~~(x ^^^ y))
  | .nand => some (~~~(x &&& y))
  | .nor => some (~~~(x ||| y))
  | .ext8s => some ((x.setWidth 8).signExtend w)
  | .ext16s => some ((x.setWidth 16).signExtend w)
  | .ext8u => some ((x.setWidth 8).setWidth w)
  | .ext16u => some ((x.setWidth 16).setWidth w)

/-- What tcg/README says an opcode computes on the low `op_bits` bits of its
arguments, zero-extended into a `TCGArg`. -/
def TCGOpcode.sem : TCGOpcode → TCGArg → TCGArg → Option TCGArg
  | .op k .i32, x, y => (k.sem (x.setWidth 32) (y.setWidth 32)).map (·.setWidth 64)
  | .op k .i64, x, y => k.sem x y
  | .ext32s_i64, x, _ => some ((x.setWidth 32).signExtend 64)
  | .ext32u_i64, x, _ => some ((x.setWidth 32).setWidth 64)

/-- The rotations. -/
def FoldOp.isRotate : FoldOp → Bool
  | .rotl | .rotr => true
  | _ => false

/-- The rotation opcodes. -/
def TCGOpcode.isRotate : TCGOpcode → Bool
  | .op k _ => k.isRotate
  | _ => false

/-! ## The C code against the README -/

variable {w : ℕ}

theorem TCGOpcode.sem_i32 (k : FoldOp) (x y : TCGArg) :
    (TCGOpcode.op k .i32).sem x y = (k.sem (x.setWidth 32) (y.setWidth 32)).map (·.setWidth 64) :=
  rfl

theorem TCGOpcode.sem_i64 (k : FoldOp) (x y : TCGArg) : (TCGOpcode.op k .i64).sem x y = k.sem x y :=
  rfl

theorem FoldOp.sem_rotl (x y : BitVec w) :
    FoldOp.rotl.sem x y = if y.toNat < w then some (x.rotateLeft y.toNat) else none := rfl

theorem FoldOp.sem_rotr (x y : BitVec w) :
    FoldOp.rotr.sem x y = if y.toNat < w then some (x.rotateRight y.toNat) else none := rfl

/-- The mask of a 32-bit result: its low 32 bits, zero-extended. -/
theorem and_0xffffffff (r : TCGArg) : r &&& 0xffffffff = (r.setWidth 32).setWidth 64 := by
  rw [show (0xffffffff : TCGArg) = (BitVec.allOnes 32).setWidth 64 by decide, and_setWidth_allOnes]

theorem doConstantFolding_i32 (k : FoldOp) (x y : TCGArg) :
    doConstantFolding (.op k .i32) x y =
      (doConstantFolding2 (.op k .i32) x y).map fun r => (r.setWidth 32).setWidth 64 := by
  simp only [doConstantFolding, TCGOpcode.bits, TcgType.bits, if_true, and_0xffffffff]

theorem doConstantFolding_of_bits (op : TCGOpcode) (hop : op.bits = 64) (x y : TCGArg) :
    doConstantFolding op x y = doConstantFolding2 op x y := by
  simp [doConstantFolding, hop]

/-- A 32-bit value zero- or sign-extended into a `TCGArg` and cast back. -/
theorem setWidth_comp_setWidth :
    (fun r : TCGArg => r.setWidth 32) ∘ (fun z : BitVec 32 => z.setWidth 64) = id := by
  funext z
  simp

theorem setWidth_comp_signExtend :
    (fun r : TCGArg => r.setWidth 32) ∘ (fun z : BitVec 32 => z.signExtend 64) = id := by
  funext z
  simp [setWidth_signExtend]

/-- A 32-bit op of a family other than the rotations computes the README's
result in the low 32 bits. -/
theorem doConstantFolding2_i32 {k : FoldOp} (hk : k.isRotate = false) (x y : TCGArg) :
    (doConstantFolding2 (.op k .i32) x y).map (·.setWidth 32) =
      k.sem (x.setWidth 32) (y.setWidth 32) := by
  cases k
  -- a shift: casting back to 32 bits undoes the conversion of the C result
  case shl | shr =>
    simp only [doConstantFolding2, Option.map_map, setWidth_comp_setWidth, Option.map_id]
    rfl
  case sar =>
    simp only [doConstantFolding2, Option.map_map, setWidth_comp_signExtend, Option.map_id]
    rfl
  case rotl | rotr => cases hk
  all_goals simp [doConstantFolding2, FoldOp.sem, BitVec.setWidth_add, BitVec.setWidth_mul,
    setWidth_sub, setWidth_signExtend]

/-- A 64-bit op of a family other than the rotations is the README's. -/
theorem doConstantFolding2_i64 {k : FoldOp} (hk : k.isRotate = false) (x y : TCGArg) :
    doConstantFolding2 (.op k .i64) x y = k.sem x y := by
  cases k
  case rotl | rotr => cases hk
  all_goals rfl

/-! ### Rotations -/

/-- The count `n - y` a rotation computes in a `TCGArg`. -/
theorem toNat_count_sub {n : ℕ} (y : TCGArg) (hy : y.toNat ≤ n) (hn : n < 2 ^ 64) :
    (BitVec.ofNat 64 n - y).toNat = n - y.toNat :=
  toNat_ofNat_sub y hy hn

theorem doConstantFolding2_rotl_i32 (x y : TCGArg) (h0 : 0 < y.toNat) (hy : y.toNat < 32) :
    doConstantFolding2 (.op .rotl .i32) x y =
      some (((x.setWidth 32).rotateLeft y.toNat).setWidth 64) := by
  have hd : ((32 : TCGArg) - y).toNat = 32 - y.toNat := toNat_count_sub y hy.le (by decide)
  -- both shifts of the C code are in range
  calc doConstantFolding2 (.op .rotl .i32) x y
      = some ((x.setWidth 32 <<< y.toNat ||| x.setWidth 32 >>> ((32 : TCGArg) - y).toNat).setWidth 64) :=
        shlC_bind_shrC _ hy (by omega) fun hi lo => pure ((hi ||| lo).setWidth 64)
    _ = some (((x.setWidth 32).rotateLeft y.toNat).setWidth 64) := by
        rw [hd, rotateLeft_eq_or _ hy]

theorem doConstantFolding2_rotr_i32 (x y : TCGArg) (h0 : 0 < y.toNat) (hy : y.toNat < 32) :
    doConstantFolding2 (.op .rotr .i32) x y =
      some (((x.setWidth 32).rotateRight y.toNat).setWidth 64) := by
  have hd : ((32 : TCGArg) - y).toNat = 32 - y.toNat := toNat_count_sub y hy.le (by decide)
  calc doConstantFolding2 (.op .rotr .i32) x y
      = some ((x.setWidth 32 <<< ((32 : TCGArg) - y).toNat ||| x.setWidth 32 >>> y.toNat).setWidth 64) :=
        shlC_bind_shrC _ (by omega) hy fun hi lo => pure ((hi ||| lo).setWidth 64)
    _ = some (((x.setWidth 32).rotateRight y.toNat).setWidth 64) := by
        rw [hd, rotateRight_eq_or _ hy, BitVec.or_comm]

theorem doConstantFolding2_rotl_i64 (x y : TCGArg) (h0 : 0 < y.toNat) (hy : y.toNat < 64) :
    doConstantFolding2 (.op .rotl .i64) x y = some (x.rotateLeft y.toNat) := by
  have hd : ((64 : TCGArg) - y).toNat = 64 - y.toNat := toNat_count_sub y hy.le (by decide)
  calc doConstantFolding2 (.op .rotl .i64) x y
      = some (x <<< y.toNat ||| x >>> ((64 : TCGArg) - y).toNat) :=
        shlC_bind_shrC _ hy (by omega) fun hi lo => pure (hi ||| lo)
    _ = some (x.rotateLeft y.toNat) := by rw [hd, rotateLeft_eq_or _ hy]

theorem doConstantFolding2_rotr_i64 (x y : TCGArg) (h0 : 0 < y.toNat) (hy : y.toNat < 64) :
    doConstantFolding2 (.op .rotr .i64) x y = some (x.rotateRight y.toNat) := by
  have hd : ((64 : TCGArg) - y).toNat = 64 - y.toNat := toNat_count_sub y hy.le (by decide)
  calc doConstantFolding2 (.op .rotr .i64) x y
      = some (x <<< ((64 : TCGArg) - y).toNat ||| x >>> y.toNat) :=
        shlC_bind_shrC _ (by omega) hy fun hi lo => pure (hi ||| lo)
    _ = some (x.rotateRight y.toNat) := by rw [hd, rotateRight_eq_or _ hy, BitVec.or_comm]

/-- A rotation by `0`, or by the width or more, is undefined in C: the shift
by `w - 0` or the shift by the count is by the width or more. -/
theorem doConstantFolding2_rotate_eq_none {k : FoldOp} (hk : k.isRotate = true) (ty : TcgType)
    (x y : TCGArg) (hy : y.toNat = 0 ∨ ty.bits ≤ y.toNat) :
    doConstantFolding2 (.op k ty) x y = none := by
  have h32 : y.toNat = 0 → ((32 : TCGArg) - y).toNat = 32 := fun h0 => by
    show (BitVec.ofNat 64 32 - y).toNat = 32
    rw [toNat_count_sub y (by omega) (by decide), h0]
  have h64 : y.toNat = 0 → ((64 : TCGArg) - y).toNat = 64 := fun h0 => by
    show (BitVec.ofNat 64 64 - y).toNat = 64
    rw [toNat_count_sub y (by omega) (by decide), h0]
  cases k
  case rotl =>
    cases ty <;> rcases hy with h0 | hle
    · exact bind_shrC_of_le _ _ (h32 h0).ge _
    · exact shlC_bind_of_le _ hle _
    · exact bind_shrC_of_le _ _ (h64 h0).ge _
    · exact shlC_bind_of_le _ hle _
  case rotr =>
    cases ty <;> rcases hy with h0 | hle
    · exact shlC_bind_of_le _ (h32 h0).ge _
    · exact bind_shrC_of_le _ _ hle _
    · exact shlC_bind_of_le _ (h64 h0).ge _
    · exact bind_shrC_of_le _ _ hle _
  all_goals cases hk

theorem doConstantFolding2_i32_rotate {k : FoldOp} (hk : k.isRotate = true) (x y : TCGArg)
    (hy : 0 < y.toNat ∧ y.toNat < 32) :
    (doConstantFolding2 (.op k .i32) x y).map (·.setWidth 32) =
      k.sem (x.setWidth 32) (y.setWidth 32) := by
  have hy32 : (y.setWidth 32).toNat = y.toNat := by
    rw [BitVec.toNat_setWidth]
    omega
  cases k
  case rotl =>
    rw [doConstantFolding2_rotl_i32 x y hy.1 hy.2]
    simp [FoldOp.sem_rotl, hy32, hy.2]
  case rotr =>
    rw [doConstantFolding2_rotr_i32 x y hy.1 hy.2]
    simp [FoldOp.sem_rotr, hy32, hy.2]
  all_goals cases hk

theorem doConstantFolding2_i64_rotate {k : FoldOp} (hk : k.isRotate = true) (x y : TCGArg)
    (hy : 0 < y.toNat ∧ y.toNat < 64) : doConstantFolding2 (.op k .i64) x y = k.sem x y := by
  cases k
  case rotl =>
    rw [doConstantFolding2_rotl_i64 x y hy.1 hy.2]
    simp [FoldOp.sem_rotl, hy.2]
  case rotr =>
    rw [doConstantFolding2_rotr_i64 x y hy.1 hy.2]
    simp [FoldOp.sem_rotr, hy.2]
  all_goals cases hk

/-! ### The folding against the README -/

/-- The folding is the README's result for every op and arguments but a
rotation by `0` or by the width or more. -/
theorem doConstantFolding_eq_sem (op : TCGOpcode) (x y : TCGArg)
    (hy : op.isRotate = true → 0 < y.toNat ∧ y.toNat < op.bits) :
    doConstantFolding op x y = op.sem x y := by
  cases op with
  | op k ty =>
    cases ty with
    | i32 =>
      -- the README reads the low 32 bits, as the mask of `do_constant_folding` does
      have hlow : (doConstantFolding2 (.op k .i32) x y).map (·.setWidth 32) =
          k.sem (x.setWidth 32) (y.setWidth 32) := by
        cases hk : k.isRotate
        · exact doConstantFolding2_i32 hk x y
        · exact doConstantFolding2_i32_rotate hk x y (hy hk)
      rw [doConstantFolding_i32, TCGOpcode.sem_i32, ← hlow, Option.map_map]
      rfl
    | i64 =>
      rw [doConstantFolding_of_bits _ rfl, TCGOpcode.sem_i64]
      cases hk : k.isRotate
      · exact doConstantFolding2_i64 hk x y
      · exact doConstantFolding2_i64_rotate hk x y (hy hk)
  | ext32s_i64 => rfl
  | ext32u_i64 => rfl

example : doConstantFolding (.op .rotl .i32) 0xffffffff80000001 1 = some 3 := by decide

/-- Wherever the C code of the folding is defined, it computes the README's
result. -/
theorem doConstantFolding_eq_sem_of_isSome {op : TCGOpcode} {x y r : TCGArg}
    (h : doConstantFolding op x y = some r) : op.sem x y = some r := by
  by_cases hy : op.isRotate = true → 0 < y.toNat ∧ y.toNat < op.bits
  · rwa [← doConstantFolding_eq_sem op x y hy]
  · -- a rotation by `0` or by the width or more: the C code is undefined
    obtain ⟨hrot, hout⟩ := Classical.not_imp.mp hy
    cases op with
    | op k ty =>
      have hnone := doConstantFolding2_rotate_eq_none hrot ty x y (by
        simp only [TCGOpcode.bits] at hout
        omega)
      simp [doConstantFolding, hnone] at h
    | _ => cases hrot

theorem doConstantFolding_rotate_zero (ty : TcgType) (x : TCGArg) :
    doConstantFolding (.op .rotl ty) x 0 = none ∧ doConstantFolding (.op .rotr ty) x 0 = none ∧
      (TCGOpcode.op .rotl ty).sem x 0 = some ((x.setWidth ty.bits).setWidth 64) ∧
      (TCGOpcode.op .rotr ty).sem x 0 = some ((x.setWidth ty.bits).setWidth 64) := by
  have hnone : ∀ k : FoldOp, k.isRotate = true → doConstantFolding (.op k ty) x 0 = none :=
    fun k hk => by
      rw [doConstantFolding, doConstantFolding2_rotate_eq_none hk ty x 0 (Or.inl rfl)]
      rfl
  refine ⟨hnone .rotl rfl, hnone .rotr rfl, ?_, ?_⟩ <;> cases ty <;>
    simp [TCGOpcode.sem_i32, TCGOpcode.sem_i64, FoldOp.sem_rotl, FoldOp.sem_rotr, TcgType.bits]

/-! ## The folding in `tcg_constant_folding` -/

/-- The families `tcg_constant_folding` swaps the inputs of so that a
constant comes second. -/
def FoldOp.commutes : FoldOp → Bool
  | .add | .mul | .and | .or | .xor | .eqv | .nand | .nor => true
  | _ => false

/-- The families for which `op r, a, 0` becomes `mov r, a`. -/
def FoldOp.zeroRight : FoldOp → Bool
  | .add | .sub | .shl | .shr | .sar | .rotl | .rotr => true
  | _ => false

/-- What `tcg_constant_folding` leaves in the op stream in place of an op it
may fold: nothing, a move, a move of a constant, or the op itself with the
arguments `args` (output first). -/
inductive Folded where
  | nop
  | mov (dst src : ℕ)
  | movi (dst : ℕ) (val : TCGArg)
  | op (args : List ℕ)
  deriving DecidableEq, Repr

/-- The second and third switch of `tcg_constant_folding` on `op a0, a1, a2`
of the two-input family `k` at type `ty`, for the inputs after copy
propagation and the swap: the simplifications, then the folding of two
constant inputs, else the op stays (and its output is reset). `none` where
`do_constant_folding` is undefined. -/
def tcgFoldArgs (temps : TcgTemps) (k : FoldOp) (ty : TcgType) (a0 a1 a2 : ℕ) :
    Option Folded :=
  if k.zeroRight ∧ temps.state a1 ≠ .const ∧ temps.state a2 = .const ∧ temps.val a2 = 0 then
    if (temps.state a0 = .copy ∧ temps.val a0 = a1) ∨ a0 = a1 then some .nop
    else some (.mov a0 a1)
  else if k = .mul ∧ temps.state a2 = .const ∧ temps.val a2 = 0 then some (.movi a0 0)
  else if (k = .or ∨ k = .and) ∧ a1 = a2 then
    if a1 = a0 then some .nop else some (.mov a0 a1)
  else if temps.state a1 = .const ∧ temps.state a2 = .const then
    (doConstantFolding (.op k ty) (.ofNat 64 (temps.val a1)) (.ofNat 64 (temps.val a2))).map
      (.movi a0)
  else some (.op [a0, a1, a2])

/-- `tcg_constant_folding` on `op a0, a1, a2`: for a commutative family with
a constant first input, the inputs are swapped first. -/
def tcgFoldBinary (temps : TcgTemps) (k : FoldOp) (ty : TcgType) (a0 a1 a2 : ℕ) :
    Option Folded :=
  if k.commutes ∧ temps.state a1 = .const then tcgFoldArgs temps k ty a0 a2 a1
  else tcgFoldArgs temps k ty a0 a1 a2

/-- What the optimizer knows of temp `t` holds at run time in the low `w`
bits of its value: a `CONST` holds `val`, a `COPY` its representative's
value. -/
def KnownHolds (temps : TcgTemps) (v : ℕ → TCGArg) (w t : ℕ) : Prop :=
  (temps.state t = .const → (v t).setWidth w = (BitVec.ofNat 64 (temps.val t)).setWidth w) ∧
    (temps.state t = .copy → (v t).setWidth w = (v (temps.val t)).setWidth w)

/-- What left in place of `op a0, …` of family `k` at type `ty` does, if the
op computes `r`: `a0` ends with the low bits of `r` — already for a nop, from
its source for a move — or the op stays, possibly with its inputs swapped,
and computes `r`. -/
def Folded.Computes (k : FoldOp) (ty : TcgType) (v : ℕ → TCGArg) (a0 : ℕ) (r : TCGArg) :
    Folded → Prop
  | .nop => (v a0).setWidth ty.bits = r.setWidth ty.bits
  | .mov dst src => dst = a0 ∧ (v src).setWidth ty.bits = r.setWidth ty.bits
  | .movi dst c => dst = a0 ∧ c.setWidth ty.bits = r.setWidth ty.bits
  | .op args => ∃ b1 b2, args = [a0, b1, b2] ∧ (TCGOpcode.op k ty).sem (v b1) (v b2) = some r

/-! ### The README's ops at the simplified arguments -/

theorem FoldOp.sem_comm {k : FoldOp} (hk : k.commutes = true) (x y : BitVec w) :
    k.sem x y = k.sem y x := by
  cases k <;> simp_all [FoldOp.commutes, FoldOp.sem, BitVec.add_comm, BitVec.mul_comm,
    BitVec.and_comm, BitVec.or_comm, BitVec.xor_comm]

theorem FoldOp.sem_zero {k : FoldOp} (hk : k.zeroRight = true) (hw : 0 < w) (x : BitVec w) :
    k.sem x 0 = some x := by
  cases k <;> simp_all [FoldOp.zeroRight, FoldOp.sem]

theorem FoldOp.sem_self {k : FoldOp} (hk : k = .or ∨ k = .and) (x : BitVec w) :
    k.sem x x = some x := by
  rcases hk with rfl | rfl <;> simp [FoldOp.sem]

/-- The README's result depends on the low `op_bits` bits of the inputs only. -/
theorem sem_congr (k : FoldOp) (ty : TcgType) {x x' y y' : TCGArg}
    (hx : x.setWidth ty.bits = x'.setWidth ty.bits) (hy : y.setWidth ty.bits = y'.setWidth ty.bits) :
    (TCGOpcode.op k ty).sem x y = (TCGOpcode.op k ty).sem x' y' := by
  cases ty with
  | i32 =>
    simp only [TcgType.bits] at hx hy
    simp only [TCGOpcode.sem_i32, hx, hy]
  | i64 =>
    simp only [TcgType.bits, BitVec.setWidth_eq] at hx hy
    rw [hx, hy]

theorem sem_comm {k : FoldOp} (hk : k.commutes = true) (ty : TcgType) (x y : TCGArg) :
    (TCGOpcode.op k ty).sem x y = (TCGOpcode.op k ty).sem y x := by
  cases ty <;> simp only [TCGOpcode.sem_i32, TCGOpcode.sem_i64, FoldOp.sem_comm hk]

/-- `x op 0` computes `x` in the low bits. -/
theorem sem_zero_right {k : FoldOp} (hk : k.zeroRight = true) {ty : TcgType} {x y r : TCGArg}
    (hy : y.setWidth ty.bits = 0) (hr : (TCGOpcode.op k ty).sem x y = some r) :
    r.setWidth ty.bits = x.setWidth ty.bits := by
  cases ty with
  | i32 =>
    change y.setWidth 32 = 0 at hy
    change r.setWidth 32 = x.setWidth 32
    rw [TCGOpcode.sem_i32, hy, FoldOp.sem_zero hk (by decide) (x.setWidth 32), Option.map_some,
      Option.some.injEq] at hr
    rw [← hr]
    simp
  | i64 =>
    change y.setWidth 64 = 0 at hy
    change r.setWidth 64 = x.setWidth 64
    rw [BitVec.setWidth_eq] at hy
    rw [TCGOpcode.sem_i64, hy, FoldOp.sem_zero hk (by decide) x, Option.some.injEq] at hr
    rw [hr]

/-- `x * 0` computes `0` in the low bits. -/
theorem sem_mul_zero {ty : TcgType} {x y r : TCGArg} (hy : y.setWidth ty.bits = 0)
    (hr : (TCGOpcode.op .mul ty).sem x y = some r) : r.setWidth ty.bits = 0 := by
  cases ty with
  | i32 =>
    change y.setWidth 32 = 0 at hy
    change r.setWidth 32 = 0
    rw [TCGOpcode.sem_i32, FoldOp.sem, hy, mul_zero, Option.map_some, Option.some.injEq] at hr
    rw [← hr]
    simp
  | i64 =>
    change y.setWidth 64 = 0 at hy
    change r.setWidth 64 = 0
    rw [BitVec.setWidth_eq] at hy
    rw [TCGOpcode.sem_i64, FoldOp.sem, hy, mul_zero, Option.some.injEq] at hr
    rw [← hr, BitVec.setWidth_eq]

/-- `x & x` and `x | x` compute `x` in the low bits. -/
theorem sem_self {k : FoldOp} (hk : k = .or ∨ k = .and) {ty : TcgType} {x r : TCGArg}
    (hr : (TCGOpcode.op k ty).sem x x = some r) : r.setWidth ty.bits = x.setWidth ty.bits := by
  cases ty with
  | i32 =>
    rw [TCGOpcode.sem_i32, FoldOp.sem_self hk, Option.map_some, Option.some.injEq] at hr
    rw [← hr]
    simp [TcgType.bits]
  | i64 =>
    rw [TCGOpcode.sem_i64, FoldOp.sem_self hk, Option.some.injEq] at hr
    rw [hr]

/-! ### What the optimizer leaves in place of the op -/

section Dispatch

variable {temps : TcgTemps} {v : ℕ → TCGArg} {k : FoldOp} {ty : TcgType} {a0 a1 a2 : ℕ}
  {r : TCGArg}

/-- A constant `0` input holds `0` in its low bits. -/
theorem KnownHolds.const_zero {t : ℕ} (h : KnownHolds temps v w t) (hc : temps.state t = .const)
    (hz : temps.val t = 0) : (v t).setWidth w = 0 := by
  rw [h.1 hc, hz]
  simp

/-- The simplifications and the folding leave in `a0` what the op would. -/
theorem tcgFoldArgs_sound {f : Folded} (h0 : KnownHolds temps v ty.bits a0)
    (h1 : KnownHolds temps v ty.bits a1) (h2 : KnownHolds temps v ty.bits a2)
    (hf : tcgFoldArgs temps k ty a0 a1 a2 = some f)
    (hr : (TCGOpcode.op k ty).sem (v a1) (v a2) = some r) : f.Computes k ty v a0 r := by
  unfold tcgFoldArgs at hf
  split_ifs at hf with hz hnop hmul hself hnop' hconst
  · -- `x op 0` where `a0` holds `x` already
    cases hf
    have hx := sem_zero_right hz.1 (h2.const_zero hz.2.2.1 hz.2.2.2) hr
    show (v a0).setWidth ty.bits = r.setWidth ty.bits
    rw [hx]
    rcases hnop with ⟨hcopy, hrep⟩ | rfl
    · rw [h0.2 hcopy, hrep]
    · rfl
  · -- `x op 0` becomes `mov a0, x`
    cases hf
    exact ⟨rfl, (sem_zero_right hz.1 (h2.const_zero hz.2.2.1 hz.2.2.2) hr).symm⟩
  · -- `x * 0` becomes `movi a0, 0`
    cases hf
    obtain ⟨rfl, hc, hv⟩ := hmul
    refine ⟨rfl, ?_⟩
    rw [sem_mul_zero (h2.const_zero hc hv) hr]
    simp
  · -- `x & x` or `x | x` where `a0` is `x`
    cases hf
    obtain ⟨hk, rfl⟩ := hself
    show (v a0).setWidth ty.bits = r.setWidth ty.bits
    rw [sem_self hk hr, hnop']
  · -- `x & x` or `x | x` becomes `mov a0, x`
    cases hf
    obtain ⟨hk, rfl⟩ := hself
    exact ⟨rfl, (sem_self hk hr).symm⟩
  · -- two constants: the folded value is the README's at the constants,
    -- which are what the inputs hold in the low bits
    obtain ⟨c, hc, rfl⟩ := Option.map_eq_some_iff.mp hf
    have hsem := doConstantFolding_eq_sem_of_isSome hc
    rw [sem_congr k ty (h1.1 hconst.1) (h2.1 hconst.2), hsem, Option.some.injEq] at hr
    exact ⟨rfl, by rw [hr]⟩
  · -- the op stays
    cases hf
    exact ⟨a1, a2, rfl, hr⟩

/-- Whatever `tcg_constant_folding` leaves in place of a two-input op leaves
in its output what the op would, in the low bits of its type, provided
that what the optimizer knows of the temps holds. -/
theorem tcgFoldBinary_sound {f : Folded} (h0 : KnownHolds temps v ty.bits a0)
    (h1 : KnownHolds temps v ty.bits a1) (h2 : KnownHolds temps v ty.bits a2)
    (hf : tcgFoldBinary temps k ty a0 a1 a2 = some f)
    (hr : (TCGOpcode.op k ty).sem (v a1) (v a2) = some r) : f.Computes k ty v a0 r := by
  unfold tcgFoldBinary at hf
  split_ifs at hf with hswap
  · -- the inputs swapped: a commutative op computes the same
    exact tcgFoldArgs_sound h0 h2 h1 hf (by rwa [sem_comm hswap.1])
  · exact tcgFoldArgs_sound h0 h1 h2 hf hr

/-- A rotation of two constants by `0` reaches `do_constant_folding`: the
simplification of `x op 0` is tried only when `x` is not a constant. -/
theorem tcgFoldBinary_rotate_zero (hk : k.isRotate = true) (h1 : temps.state a1 = .const)
    (h2 : temps.state a2 = .const) (hz : temps.val a2 = 0) :
    tcgFoldBinary temps k ty a0 a1 a2 = none := by
  have hc : k.commutes = false := by
    cases k <;> cases hk <;> rfl
  have hm : k ≠ .mul := by
    rintro rfl
    cases hk
  have ho : ¬ (k = .or ∨ k = .and) := by
    rintro (rfl | rfl) <;> cases hk
  have hfold : doConstantFolding (.op k ty) (.ofNat 64 (temps.val a1))
      (.ofNat 64 (temps.val a2)) = none := by
    rw [doConstantFolding, hz, doConstantFolding2_rotate_eq_none hk ty _ _ (Or.inl rfl)]
    rfl
  simp [tcgFoldBinary, tcgFoldArgs, hc, h1, h2, hm, ho, hfold]

end Dispatch

end QemuKvm.Tcg
