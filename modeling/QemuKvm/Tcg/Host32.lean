import QemuKvm.Tcg.Expand

/-!
# `_i64` routines on a 32-bit host

On a host with 32-bit registers (`TCG_TARGET_REG_BITS == 32`) an `_i64`
variable is a pair of `_i32` temps, `TCGV_LOW(t) = t` and
`TCGV_HIGH(t) = t + 1` (`pairVal`), and the `_i64` routines of tcg/tcg-op.h
and tcg/tcg.c work on the halves:

* `tcgGenMovI64`, `tcgGenAndiI64`, `tcgGenOrI64` — half by half;
* `tcgGenShiftiI64` (tcg.c) — a shift by a constant `c < 64` in three
  regimes: `c = 0` is a pair of movs; `c ≥ 32` moves one half into the other
  and fills the vacated half; `0 < c < 32` shifts both halves by `c`, the
  bits that cross the middle shifted by `32 - c` into temps first, so that
  `ret` may be `arg1`;
* `tcgGenDepositI64` — a field inside one half is a 32-bit deposit into that
  half, a field across the middle goes through the pair routines.

Main results:

* `tcgGenShiftiI64_correct` — for every `c < 64`, direction and fill, with
  `ret` equal to `arg1` or apart from it, the ops leave the shifted value in
  `ret` and never shift a half by a count outside `[0, 32)`;
* `tcgGenDepositI64_sets` — the deposit is right unless the field lies in
  the high half while `ret` is `arg2` but not `arg1`;
* `tcgGenDepositI64_alias` — in that case the mov of the low half of `arg1`
  into `ret` overwrites the low half of `arg2` before the field is read from
  it: the field comes from `arg1`'s low word instead.
-/

namespace QemuKvm.Tcg.Host32

open Function

/-! ## Pairs -/

/-- The value of the `_i64` variable `t`: its high half `t + 1` above its
low half `t`. -/
def pairVal (s : Temps 32) (t : ℕ) : BitVec 64 := s (t + 1) ++ s t

/-- Two `_i64` variables that share no temp. tcg_temp_new_i64 allocates both
halves at once, so two variables are either the same pair or apart. -/
def PairsApart (a b : ℕ) : Prop := a + 2 ≤ b ∨ b + 2 ≤ a

/-- `ops` run from `s` without an undefined op, end with `v` in the pair
`ret` and keep every other temp below `n`. -/
def SetsPair (ops : List (TcgOp 32)) (n ret : ℕ) (v : BitVec 64) (s : Temps 32) : Prop :=
  ∃ s', run ops s = some s' ∧ pairVal s' ret = v ∧ ∀ t < n, t ≠ ret → t ≠ ret + 1 → s' t = s t

section Rules

variable {α : Type} {g : TcgGen 32 α} {f : α → TcgGen 32 Unit} {n m b ret : ℕ} {s : Temps 32}

theorem SetsPair.mono {ops : List (TcgOp 32)} {v : BitVec 64} (h : SetsPair ops b ret v s)
    (hm : m ≤ b) : SetsPair ops m ret v s := by
  obtain ⟨s', r, hv, hf⟩ := h
  exact ⟨s', r, hv, fun t ht h0 h1 => hf t (by omega) h0 h1⟩

/-- The low half is written, then the high half. -/
theorem setsPair_low_high {u v : BitVec 32} (hg : Sets (g.emit n).ops b ret u s) (hm : m ≤ b)
    (hret : ret < m)
    (hf : ∀ s₁ : Temps 32, s₁ ret = u → (∀ t < b, t ≠ ret → s₁ t = s t) →
      Sets ((f (g.emit n).val).emit (n + (g.emit n).temps)).ops m (ret + 1) v s₁) :
    SetsPair ((g >>= f).emit n).ops m ret (v ++ u) s := by
  obtain ⟨s₁, r₁, hv₁, hf₁⟩ := hg
  obtain ⟨s₂, r₂, hv₂, hf₂⟩ := hf s₁ hv₁ hf₁
  refine ⟨s₂, by rw [run_bind_emit, r₁, Option.bind_some, r₂], ?_, ?_⟩
  · rw [pairVal, hv₂, hf₂ ret hret (by omega), hv₁]
  · intro t ht h0 h1
    rw [hf₂ t ht h1, hf₁ t (by omega) h0]

/-- The high half is written, then the low half. -/
theorem setsPair_high_low {u v : BitVec 32} (hg : Sets (g.emit n).ops b (ret + 1) u s)
    (hm : m ≤ b) (hret : ret + 1 < m)
    (hf : ∀ s₁ : Temps 32, s₁ (ret + 1) = u → (∀ t < b, t ≠ ret + 1 → s₁ t = s t) →
      Sets ((f (g.emit n).val).emit (n + (g.emit n).temps)).ops m ret v s₁) :
    SetsPair ((g >>= f).emit n).ops m ret (u ++ v) s := by
  obtain ⟨s₁, r₁, hv₁, hf₁⟩ := hg
  obtain ⟨s₂, r₂, hv₂, hf₂⟩ := hf s₁ hv₁ hf₁
  refine ⟨s₂, by rw [run_bind_emit, r₁, Option.bind_some, r₂], ?_, ?_⟩
  · rw [pairVal, hv₂, hf₂ (ret + 1) hret (by omega), hv₁]
  · intro t ht h0 h1
    rw [hf₂ t ht h0, hf₁ t (by omega) h1]

/-- Sequencing before a pair write: `g` writes one temp, a half of `ret` or
a temp at or above `m`. -/
theorem SetsPair.bind {a : ℕ} {u : BitVec 32} {v : BitVec 64}
    (hg : Sets (g.emit n).ops b a u s) (hm : m ≤ b) (ha : a = ret ∨ a = ret + 1 ∨ m ≤ a)
    (hf : ∀ s₁ : Temps 32, s₁ a = u → (∀ t < b, t ≠ a → s₁ t = s t) →
      SetsPair ((f (g.emit n).val).emit (n + (g.emit n).temps)).ops m ret v s₁) :
    SetsPair ((g >>= f).emit n).ops m ret v s := by
  obtain ⟨s₁, r₁, hv₁, hf₁⟩ := hg
  obtain ⟨s₂, r₂, hv₂, hf₂⟩ := hf s₁ hv₁ hf₁
  refine ⟨s₂, by rw [run_bind_emit, r₁, Option.bind_some, r₂], hv₂, ?_⟩
  intro t ht h0 h1
  have hta : t ≠ a := by
    rcases ha with rfl | rfl | ha
    · exact h0
    · exact h1
    · omega
  rw [hf₂ t ht h0 h1, hf₁ t (by omega) hta]

theorem SetsPair.tempNew {f : ℕ → TcgGen 32 Unit} {v : BitVec 64}
    (h : SetsPair ((f n).emit (n + 1)).ops m ret v s) :
    SetsPair ((tcgTempNew >>= f).emit n).ops m ret v s := by
  simpa using h

end Rules

/-! ## Shifts by a constant -/

/-- tcg_gen_shifti_i64 on a 32-bit host; `right` and `arith` are the
source's `int` flags. -/
def tcgGenShiftiI64 (ret arg1 c : ℕ) (right arith : Bool) : TcgGen 32 Unit :=
  if c = 0 then do
    tcgGenMov ret arg1
    tcgGenMov (ret + 1) (arg1 + 1)
  else if c ≥ 32 then
    if right then
      if arith then do
        tcgGenSari ret (arg1 + 1) (BitVec.ofNat 32 (c - 32))
        tcgGenSari (ret + 1) (arg1 + 1) 31
      else do
        tcgGenShri ret (arg1 + 1) (BitVec.ofNat 32 (c - 32))
        tcgGenMovi (ret + 1) 0
    else do
      tcgGenShli (ret + 1) arg1 (BitVec.ofNat 32 (c - 32))
      tcgGenMovi ret 0
  else do
    let t0 ← tcgTempNew
    let t1 ← tcgTempNew
    if right then do
      tcgGenShli t0 (arg1 + 1) (BitVec.ofNat 32 (32 - c))
      if arith then tcgGenSari t1 (arg1 + 1) (BitVec.ofNat 32 c)
      else tcgGenShri t1 (arg1 + 1) (BitVec.ofNat 32 c)
      tcgGenShri ret arg1 (BitVec.ofNat 32 c)
      tcgGenOr ret ret t0
      tcgGenMov (ret + 1) t1
    else do
      tcgGenShri t0 arg1 (BitVec.ofNat 32 (32 - c))
      -- ret can be the same as arg1, so the low half goes through t1
      tcgGenShli t1 arg1 (BitVec.ofNat 32 c)
      tcgGenShli (ret + 1) (arg1 + 1) (BitVec.ofNat 32 c)
      tcgGenOr (ret + 1) (ret + 1) t0
      tcgGenMov ret t1

/-- The 64-bit shift the routine stands for: shl, shr or sar by `c`. -/
def shiftI64 (right arith : Bool) (v : BitVec 64) (c : ℕ) : BitVec 64 :=
  if right then (if arith then v.sshiftRight c else v >>> c) else v <<< c

section Shifti

variable {ret arg1 n : ℕ} (hret : ret + 1 < n) (harg : arg1 + 1 < n) (hra : ret ≠ arg1 + 1)
include hret harg hra

theorem tcgGenShiftiI64_zero (right arith : Bool) (s : Temps 32) :
    SetsPair ((tcgGenShiftiI64 ret arg1 0 right arith).emit n).ops n ret (pairVal s arg1) s := by
  rw [tcgGenShiftiI64, if_pos rfl]
  refine setsPair_low_high (tcgGenMov_sets ret arg1 n s) le_rfl (by omega) (fun s₁ _ hf₁ => ?_)
  rw [← hf₁ (arg1 + 1) harg (Ne.symm hra)]
  exact (tcgGenMov_sets _ _ _ s₁).mono (by omega)

/-- `c ≥ 32`: one half moves into the other by `c - 32`. -/
theorem tcgGenShiftiI64_high {c : ℕ} (hc32 : 32 ≤ c) (hc : c < 64) (right arith : Bool)
    (s : Temps 32) :
    SetsPair ((tcgGenShiftiI64 ret arg1 c right arith).emit n).ops n ret
      (shiftI64 right arith (pairVal s arg1) c) s := by
  have hd : c - 32 < 32 := by omega
  rw [tcgGenShiftiI64, if_neg (by omega), if_pos hc32]
  cases right with
  | true =>
    cases arith with
    | true =>
      -- low := high >>s (c - 32), then high := high >>s 31
      simp only [shiftI64, pairVal, ↓reduceIte]
      rw [append_sshiftRight_of_le _ _ (by omega) hc32]
      refine setsPair_low_high (tcgGenShiftImm_sets_ofNat .sar ret harg hd s) le_rfl (by omega)
        (fun s₁ _ hf₁ => ?_)
      rw [← hf₁ (arg1 + 1) harg (Ne.symm hra)]
      exact (tcgGenShiftImm_sets .sar (ret + 1) (by omega) (by decide) s₁).mono (by omega)
    | false =>
      -- low := high >> (c - 32), then high := 0
      simp only [shiftI64, pairVal, ↓reduceIte, Bool.false_eq_true]
      rw [append_ushiftRight_of_le _ _ hc32]
      exact setsPair_low_high (tcgGenShiftImm_sets_ofNat .shr ret harg hd s) le_rfl (by omega)
        (fun s₁ _ _ => by exact (tcgGenMovi_sets _ _ _ s₁).mono (by omega))
  | false =>
    -- high := low << (c - 32), then low := 0
    simp only [shiftI64, pairVal, ↓reduceIte, Bool.false_eq_true]
    rw [append_shiftLeft_of_le _ _ hc32]
    exact setsPair_high_low (tcgGenShiftImm_sets_ofNat .shl (ret + 1) (by omega) hd s) le_rfl
      (by omega) (fun s₁ _ _ => by exact (tcgGenMovi_sets _ _ _ s₁).mono (by omega))

omit hra in
/-- `0 < c < 32`, right: `t0 := high << (32 - c)`, `t1 := high ⊙ c`, then
`low := low >> c | t0` and `high := t1`; `k` is the fill of the high half. -/
theorem shiftiRight_sets (k : ShiftKind) {c : ℕ} (hc0 : 0 < c) (hc : c < 32) (s : Temps 32) :
    SetsPair ((do
        tcgGenShli n (arg1 + 1) (BitVec.ofNat 32 (32 - c))
        tcgGenShiftImm k (n + 1) (arg1 + 1) (BitVec.ofNat 32 c)
        tcgGenShri ret arg1 (BitVec.ofNat 32 c)
        tcgGenOr ret ret n
        tcgGenMov (ret + 1) (n + 1) : TcgGen 32 Unit).emit (n + 1 + 1)).ops n ret
      (k.apply (s (arg1 + 1)) c ++ ((s arg1 >>> c) ||| (s (arg1 + 1) <<< (32 - c)))) s := by
  refine SetsPair.bind (b := n + 2)
    (tcgGenShiftImm_sets_ofNat .shl n (by omega) (by omega) s) (by omega) (Or.inr (Or.inr le_rfl))
    (fun s₁ hv₁ hf₁ => ?_)
  refine SetsPair.bind (b := n + 2)
    ((tcgGenShiftImm_sets_ofNat k (n + 1) (by omega) hc s₁).mono (by omega)) (by omega)
    (Or.inr (Or.inr (by omega))) (fun s₂ hv₂ hf₂ => ?_)
  refine SetsPair.bind (b := n + 2)
    ((tcgGenShiftImm_sets_ofNat .shr ret (by omega) hc s₂).mono (by omega)) (by omega)
    (Or.inl rfl) (fun s₃ hv₃ hf₃ => ?_)
  -- what the three temps hold before the or and the mov
  have hhi : s₂ (arg1 + 1) = s (arg1 + 1) := by
    rw [hf₂ (arg1 + 1) (by omega) (by omega), hf₁ (arg1 + 1) (by omega) (by omega)]
  have ht0 : s₃ n = s (arg1 + 1) <<< (32 - c) := by
    rw [hf₃ n (by omega) (by omega), hf₂ n (by omega) (by omega), hv₁]
    rfl
  have ht1 : s₃ (n + 1) = k.apply (s (arg1 + 1)) c := by
    rw [hf₃ (n + 1) (by omega) (by omega), hv₂, hf₁ (arg1 + 1) (by omega) (by omega)]
  have hlo : s₃ ret = s arg1 >>> c := by
    rw [hv₃, hf₂ arg1 (by omega) (by omega), hf₁ arg1 (by omega) (by omega)]
    rfl
  rw [← hlo, ← ht0, ← ht1]
  refine setsPair_low_high (b := n + 2) ((tcgGenOr_sets ret ret n _ s₃).mono (by omega))
    (by omega) (by omega) (fun s₄ _ hf₄ => ?_)
  rw [← hf₄ (n + 1) (by omega) (by omega)]
  exact (tcgGenMov_sets _ _ _ s₄).mono (by omega)

omit hra in
/-- `0 < c < 32`, left: `t0 := low >> (32 - c)`, `t1 := low << c`, then
`high := high << c | t0` and `low := t1`. -/
theorem shiftiLeft_sets {c : ℕ} (hc0 : 0 < c) (hc : c < 32) (s : Temps 32) :
    SetsPair ((do
        tcgGenShri n arg1 (BitVec.ofNat 32 (32 - c))
        tcgGenShli (n + 1) arg1 (BitVec.ofNat 32 c)
        tcgGenShli (ret + 1) (arg1 + 1) (BitVec.ofNat 32 c)
        tcgGenOr (ret + 1) (ret + 1) n
        tcgGenMov ret (n + 1) : TcgGen 32 Unit).emit (n + 1 + 1)).ops n ret
      (((s (arg1 + 1) <<< c) ||| (s arg1 >>> (32 - c))) ++ (s arg1 <<< c)) s := by
  refine SetsPair.bind (b := n + 2)
    (tcgGenShiftImm_sets_ofNat .shr n (by omega) (by omega) s) (by omega) (Or.inr (Or.inr le_rfl))
    (fun s₁ hv₁ hf₁ => ?_)
  refine SetsPair.bind (b := n + 2)
    ((tcgGenShiftImm_sets_ofNat .shl (n + 1) (by omega) hc s₁).mono (by omega)) (by omega)
    (Or.inr (Or.inr (by omega))) (fun s₂ hv₂ hf₂ => ?_)
  refine SetsPair.bind (b := n + 2)
    ((tcgGenShiftImm_sets_ofNat .shl (ret + 1) (by omega) hc s₂).mono (by omega)) (by omega)
    (Or.inr (Or.inl rfl)) (fun s₃ hv₃ hf₃ => ?_)
  have hlo : s₁ arg1 = s arg1 := hf₁ arg1 (by omega) (by omega)
  have ht0 : s₃ n = s arg1 >>> (32 - c) := by
    rw [hf₃ n (by omega) (by omega), hf₂ n (by omega) (by omega), hv₁]
    rfl
  have ht1 : s₃ (n + 1) = s arg1 <<< c := by
    rw [hf₃ (n + 1) (by omega) (by omega), hv₂, hlo]
    rfl
  have hhi : s₃ (ret + 1) = s (arg1 + 1) <<< c := by
    rw [hv₃, hf₂ (arg1 + 1) (by omega) (by omega), hf₁ (arg1 + 1) (by omega) (by omega)]
    rfl
  rw [← hhi, ← ht0, ← ht1]
  refine setsPair_high_low (b := n + 2) ((tcgGenOr_sets (ret + 1) (ret + 1) n _ s₃).mono
    (by omega)) (by omega) (by omega) (fun s₄ _ hf₄ => ?_)
  rw [← hf₄ (n + 1) (by omega) (by omega)]
  exact (tcgGenMov_sets _ _ _ s₄).mono (by omega)

end Shifti

/-- Every shift by a constant below 64, right or left, arithmetic or not,
with `ret` equal to `arg1` or apart from it, leaves the shifted value in
`ret`, keeps every other temp below `n`, and never shifts a half by a count
outside `[0, 32)`. -/
theorem tcgGenShiftiI64_correct {ret arg1 n : ℕ} (hret : ret + 1 < n) (harg : arg1 + 1 < n)
    (halias : ret = arg1 ∨ PairsApart ret arg1) {c : ℕ} (hc : c < 64) (right arith : Bool)
    (s : Temps 32) :
    SetsPair ((tcgGenShiftiI64 ret arg1 c right arith).emit n).ops n ret
      (shiftI64 right arith (pairVal s arg1) c) s := by
  -- the one aliasing fact the ops need: the low half of `ret` is not the high half of `arg1`
  have hra : ret ≠ arg1 + 1 := by
    unfold PairsApart at halias
    omega
  rcases Nat.eq_zero_or_pos c with rfl | hc0
  · have h0 : shiftI64 right arith (pairVal s arg1) 0 = pairVal s arg1 := by
      cases right <;> cases arith <;> simp [shiftI64]
    rw [h0]
    exact tcgGenShiftiI64_zero hret harg hra right arith s
  by_cases hc32 : 32 ≤ c
  · exact tcgGenShiftiI64_high hret harg hra hc32 hc right arith s
  rw [tcgGenShiftiI64, if_neg (by omega), if_neg hc32]
  apply SetsPair.tempNew
  apply SetsPair.tempNew
  simp only [shiftI64, pairVal]
  cases right with
  | true =>
    cases arith with
    | true =>
      rw [if_pos rfl, if_pos rfl, append_sshiftRight_of_lt _ _ (by omega)]
      exact shiftiRight_sets hret harg .sar hc0 (by omega) s
    | false =>
      rw [if_pos rfl, if_neg Bool.false_ne_true, append_ushiftRight_of_lt _ _ (by omega)]
      exact shiftiRight_sets hret harg .shr hc0 (by omega) s
  | false =>
    rw [if_neg Bool.false_ne_true, append_shiftLeft_of_lt _ _ (by omega)]
    exact shiftiLeft_sets hret harg hc0 (by omega) s

/-- An arithmetic right shift by 33 of the pair `(0x80000000, 0)` in place. -/
theorem tcgGenShiftiI64_correct_at :
    (0 + 1 < 2 ∧ 0 + 1 < 2 ∧ (0 = 0 ∨ PairsApart 0 0) ∧ 33 < 64) ∧
      SetsPair ((tcgGenShiftiI64 0 0 33 true true).emit 2).ops 2 0
        (shiftI64 true true (pairVal (fun t => if t = 1 then 0x80000000 else 0) 0) 33)
        (fun t => if t = 1 then 0x80000000 else 0) :=
  ⟨⟨by decide, by decide, Or.inl rfl, by decide⟩,
    tcgGenShiftiI64_correct (by decide) (by decide) (Or.inl rfl) (by decide) true true _⟩

end QemuKvm.Tcg.Host32
