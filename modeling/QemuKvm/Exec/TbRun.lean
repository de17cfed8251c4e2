import QemuKvm.Exec.TbGen

/-!
# Runs of the TB bookkeeping

The CPU loop calls the TB functions of exec.c in any order: `tb_gen_code`
(whose `tb_link_page` links the new TB in), `tb_add_jump` from `cpu_exec`,
`tb_phys_invalidate(tb, -1)`, `tb_reset_jump_recursive` from
`cpu_unlink_tb`, `tb_flush`, and the store into `tb_jmp_cache` at the end of
`tb_find_slow`. `TbReachable` holds of the states such calls reach from the
state `tcg_exec_init` leaves, each call made on TBs in use, which the callers
find on the hash chains (`TbState.InUse`).

* `tbReachable_inv` — every reachable state stands for a ghost state;
* `tbReachable_lists` — in every reachable state the page lists, the jump
  lists and the patched jumps are those of the TBs in use, every call
  returns (every walk of a list ends, and so does `tb_reset_jump_recursive`),
  and `tb_phys_invalidate(tb, -1)` takes `tb` out of every structure and
  leaves no jump of a TB in use going to its code;
* `tbPhysInvalidate_self_jump` — a TB chained to itself keeps that jump
  through `tb_phys_invalidate`: once out of use it still jumps to its own
  code.

`tb_phys_invalidate` with a page address, which `tb_invalidate_phys_page_range`
calls while it walks the list of that page, leaves `tb` on that list until
the caller empties it; it is not one of the calls here.
-/

namespace QemuKvm.Exec

open Function HeapList

/-- A TB is in use when it is on the hash chain of its `phys_pc`, where
`tb_find_slow` finds it. -/
def TbState.InUse (s : TbState) (tb : ℕ) : Prop :=
  ∃ l, IsSeg s.physLink (s.physHash (s.physBucket tb)) l none ∧ tb ∈ l

/-- The calls into the TB bookkeeping. -/
inductive TbOp where
  | genCode (pc physPc physPage2 codeGenSize : ℕ) (tbNextOffset : Fin 2 → ℕ)
  | addJump (tb : ℕ) (n : Fin 2) (tbNext : ℕ)
  | physInvalidate (tb : ℕ)
  | resetJumpRecursive (tb : ℕ)
  | flush
  | jmpCacheSet (cpu tb : ℕ)

/-- What the callers guarantee: the code generator's results are as
`GenArgs` says, the TBs passed are in use, and `cpu_exec` chains only a slot
that has a jump. -/
def TbOp.Enabled (s : TbState) : TbOp → Prop
  | .genCode pc physPc physPage2 codeGenSize tbNextOffset =>
    GenArgs pc physPc physPage2 codeGenSize tbNextOffset
  | .addJump tb n tbNext => s.InUse tb ∧ s.InUse tbNext ∧ (s.tbs tb).tbNextOffset n ≠ 0xffff
  | .physInvalidate tb => s.InUse tb
  | .resetJumpRecursive tb => s.InUse tb
  | .flush => True
  | .jmpCacheSet _ tb => s.InUse tb

/-- One call; `none` when it aborts or one of its walks runs out of rounds. -/
def tbStep (s : TbState) : TbOp → Option TbState
  | .genCode pc physPc physPage2 codeGenSize tbNextOffset =>
    (tbGenCode s pc physPc physPage2 codeGenSize tbNextOffset).map Prod.fst
  | .addJump tb n tbNext => some (tbAddJump s tb n tbNext)
  | .physInvalidate tb => tbPhysInvalidate (tbFuel s) s tb tbPageAddrNone
  | .resetJumpRecursive tb => tbResetJumpRecursive (tbFuel s) (tbFuel s) s tb
  | .flush => tbFlush s
  | .jmpCacheSet cpu tb => some (tbJmpCacheSet s cpu tb)

/-- The state `tcg_exec_init` leaves: no TB, empty hash chains, page lists
and jump caches, and a fresh code buffer as `code_gen_alloc` sizes it. -/
structure TbState.Initial (s : TbState) : Prop where
  nbTbs : s.nbTbs = 0
  physHash : ∀ h, s.physHash h = none
  firstTb : ∀ p, s.firstTb p = none
  jmpCache : ∀ cpu h, s.jmpCache cpu h = none
  ptr : s.codeGenPtr = s.codeGenBuffer
  config : s.Config

/-- The states the calls reach from an initial state. -/
inductive TbReachable : TbState → Prop where
  | init {s : TbState} : s.Initial → TbReachable s
  | step {s s' : TbState} (op : TbOp) : TbReachable s → op.Enabled s → tbStep s op = some s' →
      TbReachable s'

/-- What `tb_phys_invalidate(tb, -1)` leaves, from `s` to `s'`: `tb` is on
no hash chain and no page list and in no `tb_jmp_cache`; its slots are
unchained and its own list is empty; no list of a TB in use holds one of its
slots, and no jump of a TB in use goes to its code. -/
def TbState.Unlinked (s s' : TbState) (tb : ℕ) : Prop :=
  (∀ k l, IsSeg s'.physLink (s'.physHash k) l none → tb ∉ l) ∧
  (∀ p l, IsSeg s'.pageLink (s'.firstTb p) l none → ∀ n, (⟨tb, n⟩ : PagePtr) ∉ l) ∧
  (∀ cpu h, s'.jmpCache cpu h ≠ some tb) ∧
  (∀ n, (s'.tbs tb).jmpNext n = none) ∧ (s'.tbs tb).jmpFirst = .first tb ∧
  (∀ u, s'.InUse u → ∀ l, IsSeg s'.jmpLink (s'.jmpLink (.first u)) l (some (.first u)) →
    .first u ∉ l → ∀ n, .slot tb n ∉ l) ∧
  (∀ u, s'.InUse u → ∀ n, (s'.tbs u).tbNextOffset n ≠ 0xffff →
    (s'.tbs u).jmpTarget n ≠ (s.tbs tb).tcPtr)

section Run

variable {s s' : TbState} {a : TbAbs} {tb : ℕ}

theorem none_ne_some_of_mem {α : Type*} {l : List α} : ∀ x ∈ l, (none : Option α) ≠ some x :=
  fun _ _ => (Option.some_ne_none _).symm

/-- The TBs in use are those on their hash chain. -/
theorem TbInv.inUse_iff (h : TbInv s a) (tb : ℕ) : s.InUse tb ↔ tb ∈ a.live := by
  obtain ⟨l, hseg, -, hmem⟩ := h.phys (s.physBucket tb)
  constructor
  · rintro ⟨l', hseg', htl'⟩
    rw [hseg'.unique hseg none_ne_some_of_mem none_ne_some_of_mem] at htl'
    exact ((hmem tb).mp htl').1
  · intro htb
    exact ⟨l, hseg, (hmem tb).mpr ⟨htb, rfl⟩⟩

/-- The initial state stands for no TB in use. -/
theorem TbInv.initial (h : s.Initial) (code : ℕ → ℕ) : TbInv s (TbAbs.empty code) :=
  TbInv.of_empty h.config (by rw [h.ptr]; exact Nat.le_add_right _ _) h.physHash h.firstTb h.jmpCache code

/-- Every call the callers make returns, and keeps the invariant. -/
theorem TbInv.step (h : TbInv s a) {op : TbOp} (hop : op.Enabled s) :
    ∃ s' a', tbStep s op = some s' ∧ TbInv s' a' := by
  cases op with
  | genCode pc physPc physPage2 codeGenSize tbNextOffset =>
    obtain ⟨s', tb, hs', h'⟩ := h.genCode hop
    exact ⟨s', _, by simp [tbStep, hs'], h'⟩
  | addJump tb n tbNext =>
    obtain ⟨htb, hnx, hoff⟩ := hop
    exact ⟨_, _, rfl, h.addJump ((h.inUse_iff tb).mp htb) ((h.inUse_iff tbNext).mp hnx) hoff⟩
  | physInvalidate tb =>
    obtain ⟨s', hs', h', -⟩ := h.invalidate ((h.inUse_iff tb).mp hop)
    exact ⟨s', _, hs', h'⟩
  | resetJumpRecursive tb =>
    obtain ⟨s', hs', -, h'⟩ := h.resetRecursive ((h.inUse_iff tb).mp hop)
    exact ⟨s', _, hs', h'⟩
  | flush =>
    obtain ⟨s', hs', h', -⟩ := h.flush
    exact ⟨s', _, hs', h'⟩
  | jmpCacheSet cpu tb =>
    exact ⟨_, _, rfl, h.cacheSet ((h.inUse_iff tb).mp hop) cpu⟩

/-- Every reachable state stands for a ghost state. -/
theorem tbReachable_inv (hr : TbReachable s) : ∃ a, TbInv s a := by
  induction hr with
  | init hi => exact ⟨_, TbInv.initial hi fun _ => 0⟩
  | step op _ hop hs ih =>
    obtain ⟨a, h⟩ := ih
    obtain ⟨s'', a', hs'', h'⟩ := h.step hop
    rw [hs] at hs''
    cases hs''
    exact ⟨a', h'⟩

/-- A point of the code of one TB in use is not the start of the code of
another. -/
theorem CodeStruct.add_ne_tcPtr {L : Finset ℕ} {code : ℕ → ℕ} (h : CodeStruct s L code) {u : ℕ}
    (hu : u ∈ L) (htb : tb ∈ L) (hne : u ≠ tb) {d : ℕ} (hd : d < code u) :
    (s.tbs u).tcPtr + d ≠ (s.tbs tb).tcPtr := by
  have hdis := h.disjoint u hu tb htb hne
  have hsize := h.size tb htb
  omega

/-- From the invariants before and after `tb_phys_invalidate(tb, -1)`:
`tb` is out of every structure. -/
theorem TbInv.unlinked (h : TbInv s a) (htb : tb ∈ a.live) (h' : TbInv s' (a.invalidate tb))
    (htc : ∀ t, (s'.tbs t).tcPtr = (s.tbs t).tcPtr) (hfirst : (s'.tbs tb).jmpFirst = .first tb)
    (hnext : ∀ m, (s'.tbs tb).jmpNext m = none) : TbState.Unlinked s s' tb := by
  have hout : tb ∉ (a.invalidate tb).live := Finset.notMem_erase tb a.live
  have hlive : ∀ u ∈ (a.invalidate tb).live, u ∈ a.live ∧ u ≠ tb := fun u hu =>
    ⟨Finset.mem_of_mem_erase hu, Finset.ne_of_mem_erase hu⟩
  refine ⟨fun k l hseg htl => ?_, fun p l hseg n hx => ?_, fun cpu k hk => ?_, hnext, hfirst,
    fun u hu l hseg hfu n hx => ?_, fun u hu n hoff => ?_⟩
  · -- the hash chains: the list of every chain is that of the invariant
    obtain ⟨l₀, hseg₀, -, hmem₀⟩ := h'.phys k
    rw [hseg.unique hseg₀ none_ne_some_of_mem none_ne_some_of_mem] at htl
    exact hout ((hmem₀ tb).mp htl).1
  · -- the page lists
    obtain ⟨l₀, hseg₀, -, hmem₀⟩ := h'.pages p
    rw [hseg.unique hseg₀ none_ne_some_of_mem none_ne_some_of_mem] at hx
    exact hout ((hmem₀ _).mp hx).1.1
  · exact hout (h'.cache cpu k tb hk).1
  · -- the jump lists: a list that stops at its first return to `u` is the one of the invariant
    have huL := (h'.inUse_iff u).mp hu
    obtain ⟨l₀, hseg₀, -, hmem₀⟩ := h'.jmps.list u huL
    have hl : l = slotPtrs l₀ := hseg.unique hseg₀
      (fun q hq hfq => hfu (Option.some.inj hfq ▸ hq))
      (fun q hq hfq => first_not_mem_slotPtrs (Option.some.inj hfq ▸ hq))
    rw [hl, slot_mem_slotPtrs] at hx
    exact hout (h'.jmps.live tb n u ((hmem₀ (tb, n)).mp hx)).1
  · -- the jumps of a TB in use go into the code of a TB in use or its own
    have huL := (h'.inUse_iff u).mp hu
    obtain ⟨hua, hutb⟩ := hlive u huL
    rw [h'.targets.target u huL n hoff, jumpDest]
    cases hc : (a.invalidate tb).chain u n with
    | some v =>
      obtain ⟨hva, hvtb⟩ := hlive v (h'.jmps.live u n v hc).2
      have hne := h.code.add_ne_tcPtr hva htb hvtb (h.code.size v hva)
      show (s'.tbs v).tcPtr ≠ _
      rw [htc]
      simpa using hne
    | none =>
      rw [htc]
      exact h.code.add_ne_tcPtr hua htb hutb (h'.code.offset u huL n hoff)

/-- The TB bookkeeping stays consistent: in every state the calls reach,
for the ghost state of the TBs in use,
(i) the list of every page holds, once each, the links of the TBs in use on
that page; (ii) the list of every TB in use runs from its `jmp_first`
around to itself tagged 2 through the slots chained to it, once each, and a
slot's `jmp_next` is set exactly when it is chained; (iii) the jump of a
slot that has one goes to the code of the TB it is chained to, or to its
exit; every call the callers may make returns, so every walk and
`tb_reset_jump_recursive` end; and (iv) `tb_phys_invalidate(tb, -1)` on a
TB in use takes it out of every structure. -/
theorem tbReachable_lists (hr : TbReachable s) :
    ∃ a : TbAbs, (∀ tb, s.InUse tb ↔ tb ∈ a.live) ∧ PageStruct s a.live ∧
      JmpStruct s a.live a.chain ∧ TargetStruct s a.live a.chain ∧
      (∀ op : TbOp, op.Enabled s → ∃ s', tbStep s op = some s') ∧
      ∀ tb, s.InUse tb → ∃ s', tbStep s (.physInvalidate tb) = some s' ∧ TbState.Unlinked s s' tb := by
  obtain ⟨a, h⟩ := tbReachable_inv hr
  refine ⟨a, h.inUse_iff, h.pages, h.jmps, h.targets, fun op hop => ?_, fun tb htb => ?_⟩
  · obtain ⟨s', -, hs', -⟩ := h.step hop
    exact ⟨s', hs'⟩
  · obtain ⟨s', hs', h', htc, hfirst, hnext, -⟩ := h.invalidate ((h.inUse_iff tb).mp htb)
    exact ⟨s', hs', h.unlinked ((h.inUse_iff tb).mp htb) h' htc hfirst hnext⟩

theorem tbReachable_lists_initial :
    let s : TbState := ⟨fun _ => ⟨0, 0, none, fun _ => none, fun _ => 0, fun _ => 0xffff, fun _ => 0,
      fun _ => none, .first 0⟩, 0, fun _ => none, fun _ => none, fun _ _ => none, 0,
      MIN_CODE_GEN_BUFFER_SIZE, 0⟩
    TbReachable s ∧ ∃ a : TbAbs, (∀ tb, s.InUse tb ↔ tb ∈ a.live) ∧ PageStruct s a.live ∧
      JmpStruct s a.live a.chain ∧ TargetStruct s a.live a.chain ∧
      (∀ op : TbOp, op.Enabled s → ∃ s', tbStep s op = some s') ∧
      ∀ tb, s.InUse tb → ∃ s', tbStep s (.physInvalidate tb) = some s' ∧ TbState.Unlinked s s' tb := by
  intro s
  have hr : TbReachable s :=
    .init ⟨rfl, fun _ => rfl, fun _ => rfl, fun _ _ => rfl, rfl, le_rfl, by decide⟩
  exact ⟨hr, tbReachable_lists hr⟩

theorem TbState.JumpsOnly.inUse_iff (h : TbState.JumpsOnly s s') : s'.InUse tb ↔ s.InUse tb := by
  obtain ⟨jn, jf, jt, rfl⟩ := h
  rfl

/-- A TB in use chained to itself, then invalidated: `tb_jmp_remove` takes
its slot off its own list before the loop over that list resets jumps, so
the jump is never reset and still goes to the TB's code. -/
theorem tbPhysInvalidate_self_jump (hr : TbReachable s) (htb : s.InUse tb) {n : Fin 2}
    (hoff : (s.tbs tb).tbNextOffset n ≠ 0xffff) (hn : (s.tbs tb).jmpNext n = none) :
    TbReachable (tbAddJump s tb n tb) ∧ (tbAddJump s tb n tb).InUse tb ∧
      ∃ s', tbStep (tbAddJump s tb n tb) (.physInvalidate tb) = some s' ∧
        (s'.tbs tb).jmpTarget n = ((tbAddJump s tb n tb).tbs tb).tcPtr := by
  have hJ : TbState.JumpsOnly s (tbAddJump s tb n tb) := tbAddJump_jumpsOnly
  have hr₁ : TbReachable (tbAddJump s tb n tb) := .step (.addJump tb n tb) hr ⟨htb, htb, hoff⟩ rfl
  have htb₁ := hJ.inUse_iff.mpr htb
  obtain ⟨a, h₁⟩ := tbReachable_inv hr₁
  obtain ⟨s', hs', -, -, -, -, htarget⟩ := h₁.invalidate ((h₁.inUse_iff tb).mp htb₁)
  refine ⟨hr₁, htb₁, s', hs', ?_⟩
  -- the jump `tb_add_jump` patched is the one left
  have htc : ((tbAddJump s tb n tb).tbs tb).tcPtr = (s.tbs tb).tcPtr := by
    obtain ⟨jn, jf, jt, hs⟩ := hJ
    rw [hs]
    rfl
  rw [htarget n, tbAddJump_jmpTarget hn, if_pos ⟨rfl, rfl⟩, htc]

end Run

/-- A reachable state where `tb_phys_invalidate(0, -1)` leaves a jump to the
code of TB 0: TB 0, generated from the initial state with a jump in slot 0
and chained to itself, keeps that jump. -/
theorem tbPhysInvalidate_keeps_self_jump :
    ∃ s s' : TbState, TbReachable s ∧ s.InUse 0 ∧ (s.tbs 0).tbNextOffset 0 ≠ 0xffff ∧
      tbStep s (.physInvalidate 0) = some s' ∧ (s'.tbs 0).jmpTarget 0 = (s.tbs 0).tcPtr := by
  let s₀ : TbState := ⟨fun _ => ⟨0, 0, none, fun _ => none, fun _ => 0, fun _ => 0xffff, fun _ => 0,
    fun _ => none, .first 0⟩, 0, fun _ => none, fun _ => none, fun _ _ => none, 0,
    MIN_CODE_GEN_BUFFER_SIZE, 0⟩
  -- `tb_gen_code` of a TB of 64 bytes at pc 0 whose slot 0 has a jump at offset 0
  let tbNextOffset : Fin 2 → ℕ := fun n => if n = 0 then 0 else 0xffff
  let s₁ := tbLinkPage (tbPlaceCode { s₀.setTb 0 { s₀.tbs 0 with pc := 0 } with nbTbs := 1 } 0 64
    tbNextOffset) 0 0 tbPageAddrNone
  have hs₁ : tbStep s₀ (.genCode 0 0 tbPageAddrNone 64 tbNextOffset) = some s₁ := by
    rw [tbStep, tbGenCode_of_alloc (by rw [tbAlloc, if_neg (by decide)])]
    rfl
  have hr₁ : TbReachable s₁ :=
    .step (.genCode 0 0 tbPageAddrNone 64 tbNextOffset)
      (.init ⟨rfl, fun _ => rfl, fun _ => rfl, fun _ _ => rfl, rfl, le_rfl, by decide⟩)
      (show GenArgs 0 0 tbPageAddrNone 64 tbNextOffset from ⟨by decide, by decide, by decide, rfl, .inl rfl⟩)
      hs₁
  have huse : s₁.InUse 0 := ⟨[0], isSeg_cons.mpr ⟨by decide, isSeg_nil.mpr (by decide)⟩,
    List.mem_singleton_self 0⟩
  have hoff : (s₁.tbs 0).tbNextOffset 0 ≠ 0xffff := by decide
  obtain ⟨hr₂, huse₂, s', hs', htarget⟩ := tbPhysInvalidate_self_jump hr₁ huse hoff (by decide)
  refine ⟨_, s', hr₂, huse₂, ?_, hs', htarget⟩
  have hJ : TbState.JumpsOnly s₁ (tbAddJump s₁ 0 0 0) := tbAddJump_jumpsOnly
  obtain ⟨jn, jf, jt, hs⟩ := hJ
  rw [hs]
  exact hoff

end QemuKvm.Exec
