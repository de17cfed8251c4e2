import QemuKvm.Lib.WordShift
import QemuKvm.Tcg.Op

/-!
# Generic expansions of rotations and bit-field deposits

A host without a native rotate (`TCG_TARGET_HAS_rot_i32` is 0 on mips,
sparc and ppc64) or deposit gets these from tcg/tcg-op.h as sequences of
shifts, masks and ors:

* `tcgGenRotl`, `tcgGenRotr` (rotation by a temp): a shift by `c` or-ed with
  the opposite shift by `w - c`, the latter computed in a temp by
  `tcg_gen_subfi`;
* `tcgGenRotli`, `tcgGenRotri` (rotation by an immediate): a zero count is a
  mov, any other the same two shifts by immediates;
* `tcgGenDeposit`: the field of `arg2` masked and shifted into place, or-ed
  into `arg1` with the field cleared; shared by tcg_gen_deposit_i32 and the
  64-bit host's tcg_gen_deposit_i64, which differ only in their andi.

Each `_i32` and `_i64` routine is the width-generic one at its width.

Main results:

* `tcgGenRotl_sets`, `tcgGenRotr_sets` — for a count `c` with `0 < c < w`,
  the ops leave the rotation of `arg1` in `ret`, whatever aliases what;
* `tcgGenRotl_count_zero`, `tcgGenRotr_count_zero` — for `c = 0` the second
  shift is by `w - 0 = w`, which tcg/README leaves undefined: the ops never
  run to the end;
* `tcgGenRotli_sets`, `tcgGenRotri_sets` — the immediate forms are right for
  every `c < w`;
* `tcgGenDeposit_sets` — the deposit is right for every field with
  `0 < len` and `ofs + len ≤ w`, also when `ret` is `arg1` or `arg2`.
-/

namespace QemuKvm.Tcg

open Function

variable {w : ℕ}

/-! ## Rotations -/

/-- tcg_gen_rotl_* and tcg_gen_rotr_* without a native rotate: `k` is the
shift by the count, `k'` the opposite shift by `w - count`. -/
def tcgGenRot (k k' : ShiftKind) (ret arg1 arg2 : ℕ) : TcgGen w Unit := do
  let t0 ← tcgTempNew
  let t1 ← tcgTempNew
  tcgGenShift k t0 arg1 arg2
  tcgGenSubfi t1 (BitVec.ofNat w w) arg2
  tcgGenShift k' t1 arg1 t1
  tcgGenOr ret t0 t1

def tcgGenRotlI32 (ret arg1 arg2 : ℕ) : TcgGen 32 Unit := tcgGenRot .shl .shr ret arg1 arg2

def tcgGenRotlI64 (ret arg1 arg2 : ℕ) : TcgGen 64 Unit := tcgGenRot .shl .shr ret arg1 arg2

def tcgGenRotrI32 (ret arg1 arg2 : ℕ) : TcgGen 32 Unit := tcgGenRot .shr .shl ret arg1 arg2

def tcgGenRotrI64 (ret arg1 arg2 : ℕ) : TcgGen 64 Unit := tcgGenRot .shr .shl ret arg1 arg2

/-- The ops of a rotation by a temp: `t0 = n`, `t1 = n + 1`, and subfi's
constant temp is `n + 2`. -/
theorem tcgGenRot_ops (k k' : ShiftKind) (ret arg1 arg2 n : ℕ) :
    ((tcgGenRot k k' ret arg1 arg2 : TcgGen w Unit).emit n).ops =
      [.shift k n arg1 arg2, .movi (n + 2) (BitVec.ofNat w w), .sub (n + 1) (n + 2) arg2,
        .shift k' (n + 1) arg1 (n + 1)] ++ ((tcgGenOr ret n (n + 1)).emit (n + 3)).ops := by
  simp [tcgGenRot]

/-- For `0 < c < w` the rotation by a temp computes `x ⊙ c | x ⊙' (w - c)`. -/
theorem tcgGenRot_sets (k k' : ShiftKind) (ret : ℕ) {arg1 arg2 n : ℕ} (h1 : arg1 < n)
    (h2 : arg2 < n) {s : Temps w} (hc0 : 0 < (s arg2).toNat) (hc : (s arg2).toNat < w) :
    Sets ((tcgGenRot k k' ret arg1 arg2).emit n).ops n ret
      (k.apply (s arg1) (s arg2).toNat ||| k'.apply (s arg1) (w - (s arg2).toNat)) s := by
  -- the first four ops, store by store
  set x := s arg1
  set W := BitVec.ofNat w w
  set s1 := update s n (k.apply x (s arg2).toNat) with hs1
  set s2 := update (update s1 (n + 2) W) (n + 1) (W - s arg2) with hs2
  set s3 := update s2 (n + 1) (k'.apply x (w - (s arg2).toNat)) with hs3
  have hc1 : s1 arg2 = s arg2 := update_of_ne (Nat.ne_of_lt h2) _ _
  have hx : s2 arg1 = x := by
    rw [hs2, update_of_ne (by omega), update_of_ne (by omega), hs1, update_of_ne (by omega)]
  have hcount : (s2 (n + 1)).toNat = w - (s arg2).toNat := by
    rw [hs2, update_self, toNat_ofNat_width_sub _ hc.le]
  have e1 : (TcgOp.shift k n arg1 arg2).exec s = some s1 := exec_shift_of_lt _ _ _ _ hc
  have e3 : (TcgOp.sub (n + 1) (n + 2) arg2).exec (update s1 (n + 2) W) = some s2 := by
    rw [TcgOp.exec, update_self, update_of_ne (show arg2 ≠ n + 2 by omega), hc1]
  have e4 : (TcgOp.shift k' (n + 1) arg1 (n + 1)).exec s2 = some s3 := by
    rw [exec_shift_of_lt _ _ _ _ (by rw [hcount]; omega), hcount, hx]
  have hrun : run [.shift k n arg1 arg2, .movi (n + 2) W, .sub (n + 1) (n + 2) arg2,
      .shift k' (n + 1) arg1 (n + 1)] s = some s3 := by
    have e2 : (TcgOp.movi (n + 2) W).exec s1 = some (update s1 (n + 2) W) := rfl
    simp only [run_cons, e1, e2, e3, e4, Option.bind_some, run_nil]
  -- then the or, by its spec
  obtain ⟨s4, r4, v4, f4⟩ := tcgGenOr_sets ret n (n + 1) (n + 3) s3
  refine ⟨s4, ?_, ?_, ?_⟩
  · rw [tcgGenRot_ops, run_append, hrun, Option.bind_some, r4]
  · rw [v4, hs3, update_self, update_of_ne (by omega), hs2, update_of_ne (by omega),
      update_of_ne (by omega), hs1, update_self]
  · intro t ht hne
    rw [f4 t (by omega) hne, hs3, update_of_ne (by omega), hs2, update_of_ne (by omega),
      update_of_ne (by omega), hs1, update_of_ne (by omega)]

theorem tcgGenRotl_sets (ret : ℕ) {arg1 arg2 n : ℕ} (h1 : arg1 < n) (h2 : arg2 < n)
    {s : Temps w} (hc0 : 0 < (s arg2).toNat) (hc : (s arg2).toNat < w) :
    Sets ((tcgGenRot .shl .shr ret arg1 arg2).emit n).ops n ret
      ((s arg1).rotateLeft (s arg2).toNat) s := by
  rw [rotateLeft_eq_or _ hc]
  exact tcgGenRot_sets .shl .shr ret h1 h2 hc0 hc

theorem tcgGenRotr_sets (ret : ℕ) {arg1 arg2 n : ℕ} (h1 : arg1 < n) (h2 : arg2 < n)
    {s : Temps w} (hc0 : 0 < (s arg2).toNat) (hc : (s arg2).toNat < w) :
    Sets ((tcgGenRot .shr .shl ret arg1 arg2).emit n).ops n ret
      ((s arg1).rotateRight (s arg2).toNat) s := by
  rw [rotateRight_eq_or _ hc]
  exact tcgGenRot_sets .shr .shl ret h1 h2 hc0 hc

/-- With a zero count the second shift of a rotation by a temp is by the
full width: the count temp holds `w - 0 = w` when it runs. -/
theorem tcgGenRot_count_zero (k k' : ShiftKind) (ret : ℕ) {arg1 arg2 n : ℕ} (h2 : arg2 < n)
    {s : Temps w} (hc : s arg2 = 0) :
    run ((tcgGenRot k k' ret arg1 arg2).emit n).ops s = none := by
  rw [tcgGenRot_ops, run_append]
  -- with `w = 0` already the first shift, by `0`, is undefined
  rcases Nat.eq_zero_or_pos w with hw | hw
  · subst hw
    simp [TcgOp.exec, hc]
  have hwidth : (BitVec.ofNat w w).toNat = w := by
    rw [BitVec.toNat_ofNat, Nat.mod_eq_of_lt Nat.lt_two_pow_self]
  simp [TcgOp.exec, hc, hw, update_of_ne (Nat.ne_of_lt h2), show arg2 ≠ n + 2 by omega, hwidth]

theorem tcgGenRotlI32_count_zero (ret arg1 : ℕ) {arg2 n : ℕ} (h2 : arg2 < n) {s : Temps 32}
    (hc : s arg2 = 0) : run ((tcgGenRotlI32 ret arg1 arg2).emit n).ops s = none :=
  tcgGenRot_count_zero .shl .shr ret h2 hc

theorem tcgGenRotlI32_count_zero_at :
    (2 < 3 ∧ (fun _ => 0 : Temps 32) 2 = 0) ∧
      run ((tcgGenRotlI32 0 1 2).emit 3).ops (fun _ => 0) = none :=
  ⟨⟨by decide, rfl⟩, tcgGenRotlI32_count_zero 0 1 (by decide) rfl⟩

/-- tcg_gen_rotli_i32 / tcg_gen_rotli_i64 without a native rotate. -/
def tcgGenRotli (ret arg1 : ℕ) (arg2 : BitVec w) : TcgGen w Unit :=
  if arg2 = 0 then tcgGenMov ret arg1
  else do
    let t0 ← tcgTempNew
    let t1 ← tcgTempNew
    tcgGenShli t0 arg1 arg2
    tcgGenShri t1 arg1 (BitVec.ofNat w w - arg2)
    tcgGenOr ret t0 t1

/-- tcg_gen_rotri_i32 / tcg_gen_rotri_i64. -/
def tcgGenRotri (ret arg1 : ℕ) (arg2 : BitVec w) : TcgGen w Unit :=
  if arg2 = 0 then tcgGenMov ret arg1
  else tcgGenRotli ret arg1 (BitVec.ofNat w w - arg2)

def tcgGenRotliI32 (ret arg1 : ℕ) (arg2 : BitVec 32) : TcgGen 32 Unit := tcgGenRotli ret arg1 arg2

def tcgGenRotliI64 (ret arg1 : ℕ) (arg2 : BitVec 64) : TcgGen 64 Unit := tcgGenRotli ret arg1 arg2

def tcgGenRotriI32 (ret arg1 : ℕ) (arg2 : BitVec 32) : TcgGen 32 Unit := tcgGenRotri ret arg1 arg2

def tcgGenRotriI64 (ret arg1 : ℕ) (arg2 : BitVec 64) : TcgGen 64 Unit := tcgGenRotri ret arg1 arg2

/-- The ops of a rotation by a nonzero immediate `c < w`: both counts go
through constant temps, `n + 2` for `c` and `n + 3` for `w - c`. -/
theorem tcgGenRotli_ops (ret arg1 : ℕ) {arg2 : BitVec w} (h0 : arg2 ≠ 0)
    (h0' : BitVec.ofNat w w - arg2 ≠ 0) (n : ℕ) :
    ((tcgGenRotli ret arg1 arg2).emit n).ops =
      [.movi (n + 2) arg2, .shift .shl n arg1 (n + 2)] ++
        ([.movi (n + 3) (BitVec.ofNat w w - arg2), .shift .shr (n + 1) arg1 (n + 3)] ++
          ((tcgGenOr ret n (n + 1)).emit (n + 4)).ops) := by
  rw [tcgGenRotli, if_neg h0]
  simp [tcgGenShli, tcgGenShri, tcgGenShiftImm_emit_of_ne _ _ _ h0,
    tcgGenShiftImm_emit_of_ne _ _ _ h0']

theorem tcgGenRotli_sets (ret : ℕ) {arg1 n : ℕ} (h1 : arg1 < n) {arg2 : BitVec w}
    (hc : arg2.toNat < w) (s : Temps w) :
    Sets ((tcgGenRotli ret arg1 arg2).emit n).ops n ret ((s arg1).rotateLeft arg2.toNat) s := by
  by_cases h0 : arg2 = 0
  · subst h0
    simpa [tcgGenRotli] using tcgGenMov_sets ret arg1 n s
  have hc0 : 0 < arg2.toNat :=
    Nat.pos_of_ne_zero fun h => h0 (BitVec.eq_of_toNat_eq (by simp [h]))
  -- the second count, `w - c`, is again in `(0, w)`
  have hc' : (BitVec.ofNat w w - arg2).toNat = w - arg2.toNat := toNat_ofNat_width_sub _ hc.le
  have h0' : BitVec.ofNat w w - arg2 ≠ 0 := by
    intro h
    have := congrArg BitVec.toNat h
    rw [hc'] at this
    simp at this
    omega
  obtain ⟨s1, r1, v1, f1⟩ := tcgGenShiftImm_sets .shl n (show arg1 < n + 2 by omega) hc s
  obtain ⟨s2, r2, v2, f2⟩ := tcgGenShiftImm_sets .shr (n + 1) (show arg1 < n + 3 by omega)
    (show (BitVec.ofNat w w - arg2).toNat < w by omega) s1
  obtain ⟨s3, r3, v3, f3⟩ := tcgGenOr_sets ret n (n + 1) (n + 4) s2
  rw [tcgGenShiftImm_emit_of_ne _ _ _ h0] at r1
  rw [tcgGenShiftImm_emit_of_ne _ _ _ h0'] at r2
  have hx : s1 arg1 = s arg1 := f1 arg1 (by omega) (by omega)
  refine ⟨s3, ?_, ?_, ?_⟩
  · rw [tcgGenRotli_ops ret arg1 h0 h0', run_append, r1, Option.bind_some, run_append, r2,
      Option.bind_some, r3]
  · rw [v3, f2 n (by omega) (by omega), v1, v2, hx, hc', rotateLeft_eq_or _ hc]
    rfl
  · intro t ht hne
    rw [f3 t (by omega) hne, f2 t (by omega) (by omega), f1 t (by omega) (by omega)]

theorem tcgGenRotri_sets (ret : ℕ) {arg1 n : ℕ} (h1 : arg1 < n) {arg2 : BitVec w}
    (hc : arg2.toNat < w) (s : Temps w) :
    Sets ((tcgGenRotri ret arg1 arg2).emit n).ops n ret ((s arg1).rotateRight arg2.toNat) s := by
  by_cases h0 : arg2 = 0
  · subst h0
    simpa [tcgGenRotri] using tcgGenMov_sets ret arg1 n s
  have hc0 : 0 < arg2.toNat :=
    Nat.pos_of_ne_zero fun h => h0 (BitVec.eq_of_toNat_eq (by simp [h]))
  -- a right rotation by `c` is the left rotation by `w - c`
  have hc' : (BitVec.ofNat w w - arg2).toNat = w - arg2.toNat := toNat_ofNat_width_sub _ hc.le
  rw [tcgGenRotri, if_neg h0, ← rotateLeft_sub _ hc0 hc, ← hc']
  exact tcgGenRotli_sets ret h1 (by omega) s

/-! ## Deposits -/

/-- What an andi routine must do: `ret := arg1 & imm`, through temps at or
above the allocation mark. tcg_gen_andi_i32 and the 64-bit host's
tcg_gen_andi_i64 both do (`andiSpec_tcgGenAndiI32`, `andiSpec_tcgGenAndiI64`). -/
def AndiSpec (andi : ℕ → ℕ → BitVec w → TcgGen w Unit) : Prop :=
  ∀ (ret arg1 : ℕ) (imm : BitVec w) (n : ℕ) (s : Temps w), arg1 < n →
    Sets ((andi ret arg1 imm).emit n).ops n ret (s arg1 &&& imm) s

theorem andiSpec_tcgGenAndiI32 : AndiSpec tcgGenAndiI32 :=
  fun ret _ imm _ s h1 => tcgGenAndiI32_sets ret h1 imm s

theorem andiSpec_tcgGenAndiI64 : AndiSpec tcgGenAndiI64 :=
  fun ret _ imm _ s h1 => tcgGenAndiI64_sets ret h1 imm s

/-- tcg_gen_deposit_i32, and tcg_gen_deposit_i64 on a 64-bit host, without a
native deposit; `andi` is the width's andi routine. -/
def tcgGenDeposit (andi : ℕ → ℕ → BitVec w → TcgGen w Unit) (ret arg1 arg2 ofs len : ℕ) :
    TcgGen w Unit :=
  if ofs = 0 ∧ len = w then tcgGenMov ret arg2
  else do
    let mask : BitVec w := (1#w <<< len) - 1#w
    let t1 ← tcgTempNew
    if ofs + len < w then do
      andi t1 arg2 mask
      tcgGenShli t1 t1 (BitVec.ofNat w ofs)
    else
      tcgGenShli t1 arg2 (BitVec.ofNat w ofs)
    andi ret arg1 (~~~(mask <<< ofs))
    tcgGenOr ret ret t1

def tcgGenDepositI32 (ret arg1 arg2 ofs len : ℕ) : TcgGen 32 Unit :=
  tcgGenDeposit tcgGenAndiI32 ret arg1 arg2 ofs len

def tcgGenDepositI64 (ret arg1 arg2 ofs len : ℕ) : TcgGen 64 Unit :=
  tcgGenDeposit tcgGenAndiI64 ret arg1 arg2 ofs len

/-- The end of a deposit: `ret := (arg1 & clear) | t1` with `t1 = n`
holding the field shifted into place. -/
theorem deposit_tail_sets {andi : ℕ → ℕ → BitVec w → TcgGen w Unit} (handi : AndiSpec andi)
    {ret arg1 n n' : ℕ} (hret : ret < n) (h1 : arg1 < n) (hn : n < n') (clear : BitVec w)
    (s : Temps w) :
    Sets ((andi ret arg1 clear >>= fun _ => tcgGenOr ret ret n).emit n').ops n ret
      ((s arg1 &&& clear) ||| s n) s := by
  -- the andi keeps `t1` (below `n + 1`), so the or still reads the field there
  refine Sets.bind (b := n + 1) ((handi ret arg1 clear _ s (by omega)).mono (by omega))
    (by omega) (Or.inl rfl) (fun s₁ hv₁ hf₁ => ?_)
  rw [← hv₁, ← hf₁ n (by omega) (by omega)]
  exact (tcgGenOr_sets ret ret n _ s₁).mono (by omega)

theorem tcgGenDeposit_sets {andi : ℕ → ℕ → BitVec w → TcgGen w Unit} (handi : AndiSpec andi)
    {ret arg1 arg2 n : ℕ} (hret : ret < n) (h1 : arg1 < n) (h2 : arg2 < n) {ofs len : ℕ}
    (hlen : 0 < len) (h : ofs + len ≤ w) (s : Temps w) :
    Sets ((tcgGenDeposit andi ret arg1 arg2 ofs len).emit n).ops n ret
      (deposit (s arg1) (s arg2) ofs len) s := by
  by_cases hfull : ofs = 0 ∧ len = w
  · obtain ⟨rfl, rfl⟩ := hfull
    rw [tcgGenDeposit, if_pos ⟨rfl, rfl⟩, deposit_zero_width]
    exact tcgGenMov_sets ret arg2 n s
  have hlenw : len < w := by omega
  have hofs : (BitVec.ofNat w ofs).toNat = ofs := by
    rw [BitVec.toNat_ofNat, Nat.mod_eq_of_lt (by have := @Nat.lt_two_pow_self w; omega)]
  rw [tcgGenDeposit, if_neg hfull]
  apply Sets.tempNew
  by_cases hlt : ofs + len < w
  · -- `t1 := arg2 & mask`, then `t1 := t1 << ofs`
    simp only [if_pos hlt]
    rw [← deposit_eq_and_or _ _ hlenw h]
    refine Sets.bind (b := n + 1) (handi n arg2 _ (n + 1) s (by omega)) (by omega)
      (Or.inr le_rfl) (fun s₁ hv₁ hf₁ => ?_)
    refine Sets.bind (b := n + 1)
      ((tcgGenShiftImm_sets .shl n (by omega) (by rw [hofs]; omega) s₁).mono (by omega))
      (by omega) (Or.inr le_rfl) (fun s₂ hv₂ hf₂ => ?_)
    have hx : s₂ arg1 = s arg1 := by
      rw [hf₂ arg1 (by omega) (by omega), hf₁ arg1 (by omega) (by omega)]
    have hy : s₂ n = (s arg2 &&& ((1#w <<< len) - 1#w)) <<< ofs := by
      rw [hv₂, hv₁, hofs]
      rfl
    rw [← hx, ← hy]
    exact deposit_tail_sets handi hret h1 (by omega) _ s₂
  · -- the field reaches the top bit: `t1 := arg2 << ofs`
    simp only [if_neg hlt]
    rw [← deposit_eq_and_or_of_add_eq _ _ hlenw (by omega)]
    refine Sets.bind (b := n + 1)
      (tcgGenShiftImm_sets .shl n (by omega) (by rw [hofs]; omega) s) (by omega)
      (Or.inr le_rfl) (fun s₁ hv₁ hf₁ => ?_)
    have hx : s₁ arg1 = s arg1 := hf₁ arg1 (by omega) (by omega)
    have hy : s₁ n = s arg2 <<< ofs := by
      rw [hv₁, hofs]
      rfl
    rw [← hx, ← hy]
    exact deposit_tail_sets handi hret h1 (by omega) _ s₁

end QemuKvm.Tcg
