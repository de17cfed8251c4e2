import QemuKvm.Exec.TbLists

/-!
# The invariant of the TB bookkeeping

`TbInv s a` says that the state `s` of exec.c stands for the ghost state
`a`: the TBs in use `a.live`, the slot each of their jumps is chained to
(`a.chain`), and the size of their code (`a.code`), none of which exec.c
keeps. Beside the lists of `TbLists` it holds the patched jumps
(`TargetStruct`), the layout of the code buffer (`CodeStruct`) and the
`tb_jmp_cache` of every CPU (`CacheStruct`).

One lemma per operation gives the state the operation leaves and shows the
invariant of its ghost successor:

* `TbInv.invalidate` — `tb_phys_invalidate(tb, -1)`, through its parts
  (`tbPhysInvalidate_eq`): the hash chain, the page lists, the jump caches,
  the two jump lists `tb` is in, and the reset of the jumps to it;
* `TbInv.resetRecursive` — `tb_reset_jump_recursive`, by induction on its
  depth, whose every level unchains one slot;
* `TbInv.addJump`, `TbInv.flush`, `TbInv.genCode` and `TbInv.cacheSet`.

Every walk is given `tbFuel s` rounds, more than twice the number of TBs,
and each lemma shows that this is enough: the walks and the recursion end.
-/

namespace QemuKvm.Exec

open Function HeapList

/-- `MIN_CODE_GEN_BUFFER_SIZE`. -/
def MIN_CODE_GEN_BUFFER_SIZE : ℕ := 1024 * 1024

/-- Where the jump of slot `n` of `t` goes: to the code of the TB it is
chained to, or on to the code after the jump. -/
def jumpDest (s : TbState) (c : ℕ → Fin 2 → Option ℕ) (t : ℕ) (n : Fin 2) : ℕ :=
  match c t n with
  | some u => (s.tbs u).tcPtr
  | none => (s.tbs t).tcPtr + (s.tbs t).tbNextOffset n

/-- The patched jumps: only slots with a jump (`tb_next_offset` not `0xffff`)
are chained, and each such slot of a TB of `L` jumps where its chain says. -/
structure TargetStruct (s : TbState) (L : Finset ℕ) (c : ℕ → Fin 2 → Option ℕ) : Prop where
  slot : ∀ t n u, c t n = some u → (s.tbs t).tbNextOffset n ≠ 0xffff
  target : ∀ t ∈ L, ∀ n, (s.tbs t).tbNextOffset n ≠ 0xffff → (s.tbs t).jmpTarget n = jumpDest s c t n

/-- The code of the TBs of `L`, `code t` bytes each: not empty, below
`code_gen_ptr`, with its jumps inside it, and disjoint from the others;
`code_gen_ptr` is within the buffer. -/
structure CodeStruct (s : TbState) (L : Finset ℕ) (code : ℕ → ℕ) : Prop where
  ptr : s.codeGenPtr ≤ s.codeGenBuffer + s.codeGenBufferSize
  size : ∀ t ∈ L, 0 < code t
  below : ∀ t ∈ L, (s.tbs t).tcPtr + code t ≤ s.codeGenPtr
  offset : ∀ t ∈ L, ∀ n, (s.tbs t).tbNextOffset n ≠ 0xffff → (s.tbs t).tbNextOffset n < code t
  disjoint : ∀ t ∈ L, ∀ u ∈ L, t ≠ u →
    (s.tbs t).tcPtr + code t ≤ (s.tbs u).tcPtr ∨ (s.tbs u).tcPtr + code u ≤ (s.tbs t).tcPtr

/-- Every CPU caches only TBs of `L`, each at the hash of its pc. -/
def CacheStruct (s : TbState) (L : Finset ℕ) : Prop :=
  ∀ cpu h t, s.jmpCache cpu h = some t → t ∈ L ∧ h = tbJmpCacheHashFunc (s.tbs t).pc

/-- What the bookkeeping stands for: the TBs in use, the TB the jump of each
of their slots is chained to, and the size of their code. -/
structure TbAbs where
  live : Finset ℕ
  chain : ℕ → Fin 2 → Option ℕ
  code : ℕ → ℕ

/-- The code buffer as `code_gen_alloc` leaves it: at least
`MIN_CODE_GEN_BUFFER_SIZE` bytes, ending on a `CODE_GEN_ALIGN` boundary. -/
def TbState.Config (s : TbState) : Prop :=
  MIN_CODE_GEN_BUFFER_SIZE ≤ s.codeGenBufferSize ∧ CODE_GEN_ALIGN ∣ s.codeGenBuffer + s.codeGenBufferSize

/-- The invariant: the TBs in use are allocated, their page addresses are
page starts (`page_addr[1]` may be `-1`), and the lists, the jumps, the
code and the caches stand for `a`. -/
structure TbInv (s : TbState) (a : TbAbs) : Prop where
  config : s.Config
  lt : ∀ t ∈ a.live, t < s.nbTbs
  addr : ∀ t ∈ a.live, TARGET_PAGE_SIZE ∣ (s.tbs t).pageAddr 0 ∧
    ((s.tbs t).pageAddr 1 = tbPageAddrNone ∨ TARGET_PAGE_SIZE ∣ (s.tbs t).pageAddr 1)
  phys : PhysStruct s a.live
  pages : PageStruct s a.live
  jmps : JmpStruct s a.live a.chain
  targets : TargetStruct s a.live a.chain
  code : CodeStruct s a.live a.code
  cache : CacheStruct s a.live

/-- The rounds given to every walk of a list and the depth given to
`tb_reset_jump_recursive`. -/
def tbFuel (s : TbState) : ℕ := 4 * s.nbTbs + 4

theorem tbPageAddrNone_not_dvd : ¬TARGET_PAGE_SIZE ∣ tbPageAddrNone := by
  decide

section Inv

variable {s s' : TbState} {a : TbAbs} {L L' : Finset ℕ} {c c' : ℕ → Fin 2 → Option ℕ}

theorem TbInv.card_le (h : TbInv s a) : a.live.card ≤ s.nbTbs := by
  calc a.live.card ≤ (Finset.range s.nbTbs).card :=
        Finset.card_le_card fun t ht => Finset.mem_range.mpr (h.lt t ht)
    _ = s.nbTbs := Finset.card_range _

theorem TbInv.pageAddr_ne (h : TbInv s a) {tb : ℕ} (htb : tb ∈ a.live) :
    (s.tbs tb).pageAddr 0 ≠ tbPageAddrNone := by
  intro h0
  exact tbPageAddrNone_not_dvd (h0 ▸ (h.addr tb htb).1)

/-- Jumps reset where `R` holds and chained as before elsewhere, in a state
with the same code. -/
theorem TargetStruct.unchain (h : TargetStruct s L c) (hL : L' ⊆ L) (R : ℕ → Fin 2 → Prop)
    (hR : ∀ t m, R t m → c' t m = none) (hR' : ∀ t m, ¬R t m → c' t m = c t m)
    (htc : ∀ t, (s'.tbs t).tcPtr = (s.tbs t).tcPtr)
    (hoff : ∀ t, (s'.tbs t).tbNextOffset = (s.tbs t).tbNextOffset)
    (hreset : ∀ t ∈ L', ∀ m, R t m →
      (s'.tbs t).jmpTarget m = (s.tbs t).tcPtr + (s.tbs t).tbNextOffset m)
    (hkeep : ∀ t ∈ L', ∀ m, ¬R t m → (s'.tbs t).jmpTarget m = (s.tbs t).jmpTarget m) :
    TargetStruct s' L' c' := by
  refine ⟨fun t m u hu => ?_, fun t ht m hm => ?_⟩
  · have hRtm : ¬R t m := fun hr => by simp [hR t m hr] at hu
    rw [hoff]
    exact h.slot t m u (by rw [← hR' t m hRtm]; exact hu)
  · rw [hoff] at hm
    by_cases hRtm : R t m
    · rw [hreset t ht m hRtm, jumpDest, hR t m hRtm, htc, hoff]
    · rw [hkeep t ht m hRtm, h.target t (hL ht) m hm, jumpDest, jumpDest, hR' t m hRtm]
      cases c t m <;> simp [htc, hoff]

theorem CodeStruct.mono {code : ℕ → ℕ} (h : CodeStruct s L code) (hL : L' ⊆ L) :
    CodeStruct s L' code :=
  ⟨h.ptr, fun t ht => h.size t (hL ht), fun t ht => h.below t (hL ht),
    fun t ht => h.offset t (hL ht), fun t ht u hu => h.disjoint t (hL ht) u (hL hu)⟩

/-- The frame rule: the code layout is read from `code_gen_ptr`, the buffer,
and the `tc_ptr` and `tb_next_offset` of the TBs. -/
theorem CodeStruct.of_eq {code : ℕ → ℕ} (h : CodeStruct s L code)
    (hptr : s'.codeGenPtr = s.codeGenPtr) (hbuf : s'.codeGenBuffer = s.codeGenBuffer)
    (hsize : s'.codeGenBufferSize = s.codeGenBufferSize) (htc : ∀ t, (s'.tbs t).tcPtr = (s.tbs t).tcPtr)
    (hoff : ∀ t, (s'.tbs t).tbNextOffset = (s.tbs t).tbNextOffset) : CodeStruct s' L code := by
  refine ⟨?_, h.size, fun t ht => ?_, fun t ht m hm => ?_, fun t ht u hu htu => ?_⟩
  · rw [hptr, hbuf, hsize]
    exact h.ptr
  · rw [hptr, htc]
    exact h.below t ht
  · rw [hoff] at hm ⊢
    exact h.offset t ht m hm
  · rw [htc, htc]
    exact h.disjoint t ht u hu htu

end Inv

/-! ## `tb_phys_invalidate` -/

/-- The part of `tb_phys_invalidate` that clears the `tb_jmp_cache`
entries of `tb`, whose pc was `pc`. -/
def tbJmpCacheClear (s : TbState) (pc tb : ℕ) : TbState :=
  let h := tbJmpCacheHashFunc pc
  { s with
    jmpCache := fun c => if s.jmpCache c h = some tb then update (s.jmpCache c) h none
      else s.jmpCache c }

/-- `tb_phys_invalidate` in its parts. -/
theorem tbPhysInvalidate_eq (fuel : ℕ) (s : TbState) (tb pageAddr : ℕ) :
    tbPhysInvalidate fuel s tb pageAddr = (do
      let s₁ ← tbPhysHashRemove fuel s (s.physBucket tb) tb
      let s₂ ← tbPageUnlink fuel s₁ (s.tbs tb) tb pageAddr
      tbJmpUnlink fuel (tbJmpCacheClear s₂ (s.tbs tb).pc tb) tb) := by
  unfold tbPhysInvalidate tbJmpUnlink tbJmpCacheClear
  refine congrArg (Option.bind _) (funext fun s₁ => ?_)
  unfold tbPageUnlink
  split_ifs <;> simp only [bind_assoc]

/-- What `tb_phys_invalidate` does to the ghost state: `tb` is no longer in
use, and neither its slots nor those chained to it are chained. -/
def TbAbs.invalidate (a : TbAbs) (tb : ℕ) : TbAbs where
  live := a.live.erase tb
  chain t m := if t = tb ∨ a.chain t m = some tb then none else a.chain t m
  code := a.code

section Invalidate

variable {s : TbState} {a : TbAbs} {L : Finset ℕ} {tb : ℕ}

theorem CacheStruct.clear (h : CacheStruct s L) :
    CacheStruct (tbJmpCacheClear s (s.tbs tb).pc tb) (L.erase tb) := by
  intro cpu k t hk
  simp only [tbJmpCacheClear] at hk
  split_ifs at hk with hc
  · -- the entry of `tb` at its hash is cleared; the others stay
    by_cases hkh : k = tbJmpCacheHashFunc (s.tbs tb).pc
    · simp [hkh] at hk
    · rw [update_of_ne hkh] at hk
      obtain ⟨htL, rfl⟩ := h cpu k t hk
      refine ⟨Finset.mem_erase.mpr ⟨?_, htL⟩, rfl⟩
      rintro rfl
      exact hkh rfl
  · obtain ⟨htL, rfl⟩ := h cpu k t hk
    refine ⟨Finset.mem_erase.mpr ⟨?_, htL⟩, rfl⟩
    rintro rfl
    exact hc hk

theorem jmpLink_resetSlots_slot {l : List (ℕ × Fin 2)} (t : ℕ) (m : Fin 2) :
    (s.resetSlots l).jmpLink (.slot t m) = if (t, m) ∈ l then none else s.jmpLink (.slot t m) :=
  rfl

theorem jmpLink_resetSlots_first {l : List (ℕ × Fin 2)} (t : ℕ) :
    (s.resetSlots l).jmpLink (.first t) = s.jmpLink (.first t) :=
  rfl

theorem TbAbs.invalidate_chain_ne (a : TbAbs) (tb t : ℕ) (m : Fin 2) :
    (a.invalidate tb).chain t m ≠ some tb := by
  simp only [TbAbs.invalidate]
  split_ifs with h'
  · simp
  · exact fun h'' => h' (.inr h'')

/-- The jump lists after `tb_phys_invalidate`: the two slots of `tb` are out
of their lists (`c₅`), the loop over the list of `tb` has reset and
unchained every slot on it (`resetSlots`), and `tb->jmp_first` is `tb`
tagged 2 again. -/
theorem JmpStruct.invalidate (h : JmpStruct s a.live a.chain) (htb : tb ∈ a.live) {s₅ : TbState}
    (h₅ : JmpStruct s₅ a.live (setChain (setChain a.chain tb 0 none) tb 1 none))
    {l : List (ℕ × Fin 2)}
    (hmem : ∀ x : ℕ × Fin 2, x ∈ l ↔ setChain (setChain a.chain tb 0 none) tb 1 none x.1 x.2 = some tb) :
    JmpStruct ((s₅.resetSlots l).writeJmp (.first tb) (.first tb)) (a.invalidate tb).live
      (a.invalidate tb).chain := by
  have hc₅ : ∀ t m, setChain (setChain a.chain tb 0 none) tb 1 none t m =
      if t = tb then none else a.chain t m := by
    intro t m
    rw [setChain_apply, setChain_apply]
    by_cases ht : t = tb
    · subst ht
      rcases fin_two_eq_or_eq (show (0 : Fin 2) ≠ 1 by decide) m with rfl | rfl <;> simp
    · simp [ht]
  have hlink := TbState.jmpLink_writeJmp (s := s₅.resetSlots l) (.first tb) (.first tb)
  refine JmpStruct.erase (h₅.replace tb [] (fun t m hne => ?_) (fun t m u hu => ?_) (fun q hq => ?_)
    (fun t m hc hc' => ?_) ?_ List.nodup_nil fun x => ?_) (fun m => ?_) (a.invalidate_chain_ne tb)
  · -- the chains that change are those to `tb`
    rw [hc₅] at hne ⊢
    simp only [TbAbs.invalidate] at hne ⊢
    by_cases ht : t = tb
    · simp [ht] at hne
    · by_cases hct : a.chain t m = some tb
      · exact .inl ⟨by simp [ht, hct], by simp [hct]⟩
      · simp [ht, hct] at hne
  · simp only [TbAbs.invalidate] at hu
    split_ifs at hu with h'
    exact h.live t m u hu
  · -- the links that change are `tb->jmp_first` and the slots of the list
    rw [hlink] at hq
    by_cases hq₁ : q = .first tb
    · exact .inl hq₁
    rw [update_of_ne hq₁] at hq
    cases q with
    | slot t m =>
      rw [jmpLink_resetSlots_slot] at hq
      split_ifs at hq with hx
      · exact .inr ⟨t, m, rfl, .inl ((hmem (t, m)).mp hx)⟩
      · exact absurd rfl hq
    | first t => exact absurd (jmpLink_resetSlots_first t) hq
  · rw [hlink, update_of_ne (by simp), jmpLink_resetSlots_slot, if_pos ((hmem (t, m)).mpr hc)]
  · rw [hlink, update_self]
    exact rfl
  · simp [a.invalidate_chain_ne tb x.1 x.2]
  · simp [TbAbs.invalidate]

/-- `tb_phys_invalidate(tb, -1)` on a TB in use ends, and leaves the
invariant of the ghost state without `tb`; the code of the TBs stays,
`tb->jmp_first` is `tb` tagged 2, the slots of `tb` are unchained, and
their jumps are left as they were: `tb` is out of the lists of its targets
before the loop over its own list resets jumps. -/
theorem TbInv.invalidate (h : TbInv s a) (htb : tb ∈ a.live) :
    ∃ s', tbPhysInvalidate (tbFuel s) s tb tbPageAddrNone = some s' ∧ TbInv s' (a.invalidate tb) ∧
      (∀ t, (s'.tbs t).tcPtr = (s.tbs t).tcPtr) ∧ (s'.tbs tb).jmpFirst = .first tb ∧
      (∀ m, (s'.tbs tb).jmpNext m = none) ∧ ∀ m, (s'.tbs tb).jmpTarget m = (s.tbs tb).jmpTarget m := by
  have hcard := h.card_le
  -- the hash chain
  obtain ⟨ph, hn, h₁, hphys⟩ := h.phys.remove htb (by unfold tbFuel; omega : a.live.card ≤ tbFuel s)
  -- the page lists
  obtain ⟨ft, pl, h₂, hpages⟩ := PageStruct.unlink (s := s.withPhys ph hn) h.pages htb
    (t := s.tbs tb) rfl (h.pageAddr_ne htb) (by unfold tbFuel; omega : 2 * a.live.card ≤ tbFuel s)
  -- the jump caches
  have hcache : CacheStruct (tbJmpCacheClear ((s.withPhys ph hn).withPages ft pl) (s.tbs tb).pc tb)
      (a.live.erase tb) := CacheStruct.clear h.cache
  -- the two jump lists `tb` is in
  have hfuel : 2 * a.live.card < tbFuel s := by
    unfold tbFuel
    omega
  obtain ⟨s₄, h₄, hJ₄, ht₄, hjmp₄⟩ :=
    JmpStruct.remove (h.jmps.of_jmpLink_eq
      (show (tbJmpCacheClear ((s.withPhys ph hn).withPages ft pl) (s.tbs tb).pc tb).jmpLink = s.jmpLink
        from rfl)) htb 0 hfuel
  obtain ⟨s₅, h₅, hJ₅, ht₅, hjmp₅⟩ := hjmp₄.remove htb 1 hfuel
  -- the list of jumps to `tb`
  obtain ⟨l, hseg, hnd, hmem⟩ := hjmp₅.list tb htb
  have h₆ : tbResetJumps (tbFuel s) s₅ (s₅.tbs tb).jmpFirst = some (s₅.resetSlots l) :=
    tbResetJumps_spec hseg hnd (by have := hjmp₅.length_le hnd hmem; omega)
  refine ⟨(s₅.resetSlots l).writeJmp (.first tb) (.first tb), ?_, ?_⟩
  · rw [tbPhysInvalidate_eq]
    simp [h₁, h₂, tbJmpUnlink, h₄, h₅, h₆]
    rfl
  -- every part but the jumps is that of the state after the jump caches
  obtain ⟨jn, jf, jt, hs₅⟩ := hJ₄.trans hJ₅
  have hJ₆ : TbState.JumpsOnly s₅ (s₅.resetSlots l) := ⟨_, _, _, rfl⟩
  obtain ⟨jn', jf', jt', hs₇⟩ := (hJ₄.trans hJ₅).trans
    (hJ₆.trans (TbState.JumpsOnly.writeJmp (s := s₅.resetSlots l) (.first tb) (.first tb)))
  have hL : (a.invalidate tb).live ⊆ a.live := Finset.erase_subset tb a.live
  -- the jumps reset are those of the slots left on the list of `tb`
  have htarget : ∀ t m, (((s₅.resetSlots l).writeJmp (.first tb) (.first tb)).tbs t).jmpTarget m =
      if (t, m) ∈ l then (s.tbs t).tcPtr + (s.tbs t).tbNextOffset m else (s.tbs t).jmpTarget m := by
    intro t m
    rw [TbState.jmpTarget_writeJmp]
    show (if (t, m) ∈ l then (s₅.tbs t).tcPtr + (s₅.tbs t).tbNextOffset m
      else (s₅.tbs t).jmpTarget m) = _
    rw [ht₅, ht₄, hs₅]
    rfl
  -- the slots of `tb` were taken off the lists before the loop
  have hown : ∀ m, setChain (setChain a.chain tb 0 none) tb 1 none tb m = none := fun m => by
    rcases fin_two_eq_or_eq (show (0 : Fin 2) ≠ 1 by decide) m with rfl | rfl <;> simp [setChain_apply]
  have hnl : ∀ m, (tb, m) ∉ l := fun m hx => by
    have hc := (hmem (tb, m)).mp hx
    rw [hown m] at hc
    cases hc
  refine ⟨⟨?_, ?_, ?_, ?_, ?_, ?_, ?_, ?_, ?_⟩, ?_, ?_, ?_, ?_⟩
  · rw [hs₇]
    exact h.config
  · rw [hs₇]
    exact fun t ht => h.lt t (hL ht)
  · rw [hs₇]
    exact fun t ht => h.addr t (hL ht)
  · rw [hs₇]
    exact hphys
  · rw [hs₇]
    exact hpages
  · exact JmpStruct.invalidate h.jmps htb hjmp₅ hmem
  · -- the jumps reset are those of the slots that were chained to `tb`
    have hc₅ : ∀ t m, t ≠ tb → setChain (setChain a.chain tb 0 none) tb 1 none t m = a.chain t m := by
      intro t m ht
      simp [setChain_apply, ht]
    refine h.targets.unchain hL (fun t m => t = tb ∨ a.chain t m = some tb) (fun t m hr => if_pos hr)
      (fun t m hr => if_neg hr) (fun t => by rw [hs₇]; rfl) (fun t => by rw [hs₇]; rfl)
      (fun t ht m hr => ?_) fun t ht m hr => ?_
    · have htb' : t ≠ tb := (Finset.mem_erase.mp ht).1
      have hx : (t, m) ∈ l := (hmem (t, m)).mpr (by rw [hc₅ t m htb']; exact hr.resolve_left htb')
      rw [htarget, if_pos hx]
    · have hx : (t, m) ∉ l := fun hx => hr (.inr (by
        rw [← hc₅ t m fun h' => hr (.inl h')]
        exact (hmem (t, m)).mp hx))
      rw [htarget, if_neg hx]
  · rw [hs₇]
    exact (h.code.mono hL).of_eq rfl rfl rfl (fun _ => rfl) fun _ => rfl
  · rw [hs₇]
    exact hcache
  · intro t
    rw [hs₇]
    rfl
  · simp [TbState.writeJmp]
  · intro m
    show ((s₅.resetSlots l).writeJmp (.first tb) (.first tb)).jmpLink (.slot tb m) = none
    rw [TbState.jmpLink_writeJmp, update_of_ne (by simp), jmpLink_resetSlots_slot, if_neg (hnl m)]
    exact (hjmp₅.next tb htb m).mpr (hown m)
  · intro m
    rw [htarget, if_neg (hnl m)]

end Invalidate

/-! ## `tb_reset_jump_recursive` -/

/-- The number of chained slots of the TBs of `L`: every level of
`tb_reset_jump_recursive` that goes deeper unchains one. -/
def chainCount (L : Finset ℕ) (c : ℕ → Fin 2 → Option ℕ) : ℕ :=
  ((L ×ˢ Finset.univ).filter fun x : ℕ × Fin 2 => c x.1 x.2 ≠ none).card

/-- What `tb_reset_jump_recursive` does to the ghost state, read from the
state `s'` it leaves: the slots it unchained are those whose `jmp_next` it
cleared. -/
def TbAbs.resetRecursive (a : TbAbs) (s' : TbState) : TbAbs :=
  { a with chain := fun t m => if (s'.tbs t).jmpNext m = none then none else a.chain t m }

section Recursive

variable {s : TbState} {L : Finset ℕ} {c c' : ℕ → Fin 2 → Option ℕ} {walk f tb : ℕ} {n : Fin 2}

theorem chainCount_le : chainCount L c ≤ 2 * L.card := by
  calc chainCount L c ≤ (L ×ˢ (Finset.univ : Finset (Fin 2))).card := Finset.card_filter_le _ _
    _ = 2 * L.card := by rw [Finset.card_product, Finset.card_univ, Fintype.card_fin, Nat.mul_comm]

theorem chainCount_mono (hc : ∀ t m, c' t m = c t m ∨ c' t m = none) :
    chainCount L c' ≤ chainCount L c := by
  refine Finset.card_le_card fun x hx => ?_
  simp only [Finset.mem_filter] at hx ⊢
  refine ⟨hx.1, fun hnone => hx.2 ?_⟩
  rcases hc x.1 x.2 with h' | h'
  · rw [h']
    exact hnone
  · exact h'

theorem chainCount_setChain_lt (htb : tb ∈ L) (hc : c tb n ≠ none) :
    chainCount L (setChain c tb n none) < chainCount L c := by
  refine Finset.card_lt_card ⟨fun x hx => ?_, fun hsub => ?_⟩
  · simp only [Finset.mem_filter, setChain_apply] at hx ⊢
    refine ⟨hx.1, fun hnone => hx.2 ?_⟩
    split_ifs <;> simp [hnone]
  · have hx := hsub (show (tb, n) ∈ _ by simp [htb, hc])
    simp [setChain_apply] at hx

theorem tbResetJumpRecursive2_of_none (hn : (s.tbs tb).jmpNext n = none) :
    tbResetJumpRecursive2 walk (f + 1) s tb n = some s := by
  rw [tbResetJumpRecursive2.eq_2, hn]

theorem tbResetJumpRecursive2_of_some {p hd ℓ : JmpPtr} (hp : (s.tbs tb).jmpNext n = some p)
    (hhd : HeapList.findNode s.jmpLink JmpPtr.isFirst walk (some p) = some hd)
    (hℓ : HeapList.findLink s.jmpLink (· = .slot tb n) id walk (.first hd.tb)
      (some (s.tbs hd.tb).jmpFirst) = some (ℓ, .slot tb n)) :
    tbResetJumpRecursive2 walk (f + 1) s tb n =
      tbResetJumpRecursive walk f (tbResetJump ((s.writeJmp ℓ p).clearJmpNext tb n) tb n) hd.tb := by
  rw [tbResetJumpRecursive2.eq_2, hp]
  simp [hhd, hℓ]
  rfl

theorem tbResetJumpRecursive_succ :
    tbResetJumpRecursive walk (f + 1) s tb =
      (tbResetJumpRecursive2 walk f s tb 0).bind fun s => tbResetJumpRecursive2 walk f s tb 1 :=
  tbResetJumpRecursive.eq_2 walk s tb f

/-- What every level of `tb_reset_jump_recursive` leaves: `s'` is `s` with
other jump lists and jumps, standing for a chain `c'` that keeps or drops
each link of `c`. -/
def ResetResult (L : Finset ℕ) (s : TbState) (c : ℕ → Fin 2 → Option ℕ) (s' : TbState) : Prop :=
  ∃ c', TbState.JumpsOnly s s' ∧ JmpStruct s' L c' ∧ TargetStruct s' L c' ∧
    ∀ t m, c' t m = c t m ∨ c' t m = none

theorem ResetResult.refl (hj : JmpStruct s L c) (ht : TargetStruct s L c) : ResetResult L s c s :=
  ⟨c, TbState.JumpsOnly.refl, hj, ht, fun _ _ => .inl rfl⟩

theorem ResetResult.trans {s₁ s₂ : TbState} (h₁ : TbState.JumpsOnly s s₁)
    (hc₁ : ∀ t m, c' t m = c t m ∨ c' t m = none) (h₂ : ResetResult L s₁ c' s₂) :
    ResetResult L s c s₂ := by
  obtain ⟨c'', hJ, hj, ht, hc''⟩ := h₂
  refine ⟨c'', h₁.trans hJ, hj, ht, fun t m => ?_⟩
  rcases hc'' t m with h' | h'
  · rw [h']
    exact hc₁ t m
  · exact .inr h'

/-- One level of `tb_reset_jump_recursive2` on a chained slot: the slot
leaves the list of the TB `v` it jumps to and its jump is reset, which
unchains it, and the recursion goes on from `v`. -/
theorem JmpStruct.resetStep (hj : JmpStruct s L c) (ht : TargetStruct s L c) (htb : tb ∈ L)
    {v : ℕ} (hc : c tb n = some v) (hwalk : 2 * L.card < walk) :
    ∃ s₁, (∀ f, tbResetJumpRecursive2 walk (f + 1) s tb n = tbResetJumpRecursive walk f s₁ v) ∧
      TbState.JumpsOnly s s₁ ∧ JmpStruct s₁ L (setChain c tb n none) ∧
      TargetStruct s₁ L (setChain c tb n none) ∧ v ∈ L := by
  obtain ⟨ℓ, p, hp, -, hfirst, hnode, hj'⟩ := hj.unlink hc hwalk
  have hJ₀ : TbState.JumpsOnly s ((s.writeJmp ℓ p).clearJmpNext tb n) :=
    (TbState.JumpsOnly.writeJmp ℓ p).trans (TbState.JumpsOnly.setTb tb _ rfl)
  obtain ⟨jn, jf, jt, hs₀⟩ := id hJ₀
  refine ⟨tbResetJump ((s.writeJmp ℓ p).clearJmpNext tb n) tb n,
    fun f => tbResetJumpRecursive2_of_some hp hnode hfirst,
    hJ₀.trans (TbState.JumpsOnly.tbResetJump tb n),
    hj'.of_jmpLink_eq (TbState.jmpLink_tbResetJump n), ?_, (hj.live tb n v hc).2⟩
  -- the jump of the slot is reset, the others stay
  refine ht.unchain (subset_refl L) (fun t m => t = tb ∧ m = n)
    (fun t m hr => by simp [setChain_apply, hr]) (fun t m hr => by simp [setChain_apply, hr])
    (fun t => ?_) (fun t => ?_) (fun t _ m hr => ?_) fun t _ m hr => ?_
  · rw [tbResetJump, TbState.setTb_field TranslationBlock.tcPtr (by rfl), hs₀]
    rfl
  · rw [tbResetJump, TbState.setTb_field TranslationBlock.tbNextOffset (by rfl), hs₀]
    rfl
  · obtain ⟨rfl, rfl⟩ := hr
    rw [TbState.jmpTarget_tbResetJump, if_pos ⟨rfl, rfl⟩, hs₀]
    rfl
  · rw [TbState.jmpTarget_tbResetJump, if_neg hr, TbState.jmpTarget_clearJmpNext,
      TbState.jmpTarget_writeJmp]

theorem setChain_none_le (t : ℕ) (m : Fin 2) :
    setChain c tb n none t m = c t m ∨ setChain c tb n none t m = none := by
  rw [setChain_apply]
  split_ifs
  · exact .inr rfl
  · exact .inl rfl

/-- `tb_reset_jump_recursive` and `tb_reset_jump_recursive2` end, given a
depth of more than twice the number of chained slots: the recursion goes
deeper only through a chained slot, which it unchains first. The induction
is on the depth, for both functions at once. -/
theorem tbResetJumpRecursive_spec (hwalk : 2 * L.card < walk) (f : ℕ) :
    (∀ s c tb n, JmpStruct s L c → TargetStruct s L c → tb ∈ L → 2 * chainCount L c + 1 ≤ f →
      ∃ s', tbResetJumpRecursive2 walk f s tb n = some s' ∧ ResetResult L s c s') ∧
    (∀ s c tb, JmpStruct s L c → TargetStruct s L c → tb ∈ L → 2 * chainCount L c + 2 ≤ f →
      ∃ s', tbResetJumpRecursive walk f s tb = some s' ∧ ResetResult L s c s') := by
  induction f with
  | zero =>
    exact ⟨fun _ _ _ _ _ _ _ hf => absurd hf (by omega), fun _ _ _ _ _ _ hf => absurd hf (by omega)⟩
  | succ f ih =>
    constructor
    · -- `tb_reset_jump_recursive2`: nothing to do on a slot that is not chained
      intro s c tb n hj ht htb hf
      cases hc : c tb n with
      | none => exact ⟨s, tbResetJumpRecursive2_of_none ((hj.next tb htb n).mpr hc), .refl hj ht⟩
      | some v =>
        obtain ⟨s₁, heq, hJ, hj₁, ht₁, hv⟩ := hj.resetStep ht htb hc hwalk
        have hlt := chainCount_setChain_lt (L := L) htb (show c tb n ≠ none by simp [hc])
        obtain ⟨s', hs', hres⟩ := ih.2 s₁ _ v hj₁ ht₁ hv (by omega)
        exact ⟨s', (heq f).trans hs', ResetResult.trans hJ setChain_none_le hres⟩
    · -- `tb_reset_jump_recursive`: both slots, the second from what the first left
      intro s c tb hj ht htb hf
      obtain ⟨s₁, hs₁, c₁, hJ₁, hj₁, ht₁, hc₁⟩ := ih.1 s c tb 0 hj ht htb (by omega)
      have hle := chainCount_mono (L := L) hc₁
      obtain ⟨s₂, hs₂, hres⟩ := ih.1 s₁ c₁ tb 1 hj₁ ht₁ htb (by omega)
      exact ⟨s₂, by rw [tbResetJumpRecursive_succ, hs₁]; exact hs₂, ResetResult.trans hJ₁ hc₁ hres⟩

end Recursive

section Ops

variable {s : TbState} {a : TbAbs} {tb : ℕ}

/-- `tb_reset_jump_recursive` on a TB in use ends, and leaves the invariant
with the slots it unchained; it patches only jumps and changes no list but
the jump lists. -/
theorem TbInv.resetRecursive (h : TbInv s a) (htb : tb ∈ a.live) :
    ∃ s', tbResetJumpRecursive (tbFuel s) (tbFuel s) s tb = some s' ∧ TbState.JumpsOnly s s' ∧
      TbInv s' (a.resetRecursive s') := by
  have hcard := h.card_le
  have hcount := chainCount_le (L := a.live) (c := a.chain)
  obtain ⟨s', hs', c', hJ, hj, ht, hc'⟩ := (tbResetJumpRecursive_spec (L := a.live)
    (by unfold tbFuel; omega : 2 * a.live.card < tbFuel s) (tbFuel s)).2 s a.chain tb h.jmps h.targets htb (by unfold tbFuel; omega)
  refine ⟨s', hs', hJ, ?_⟩
  -- the ghost chain read from the state is the one the recursion left
  have hchain : (a.resetRecursive s').chain = c' := by
    funext t m
    simp only [TbAbs.resetRecursive]
    by_cases htL : t ∈ a.live
    · split_ifs with hn
      · exact ((hj.next t htL m).mp hn).symm
      · rcases hc' t m with h' | h'
        · exact h'.symm
        · exact absurd ((hj.next t htL m).mpr h') hn
    · have hnone : ∀ c'' : ℕ → Fin 2 → Option ℕ, (∀ t m u, c'' t m = some u → t ∈ a.live ∧ u ∈ a.live) →
          c'' t m = none := fun c'' hlive => by
        by_contra hne
        obtain ⟨u, hu⟩ := Option.ne_none_iff_exists'.mp hne
        exact htL (hlive t m u hu).1
      rw [hnone c' hj.live, hnone a.chain h.jmps.live]
      split_ifs <;> rfl
  obtain ⟨jn, jf, jt, rfl⟩ := hJ
  refine ⟨h.config, h.lt, h.addr, h.phys, h.pages, ?_, ?_,
    h.code.of_eq rfl rfl rfl (fun _ => rfl) fun _ => rfl, h.cache⟩
  · rw [hchain]
    exact hj
  · rw [hchain]
    exact ht

/-- What `tb_add_jump` does to the ghost state: the slot is chained to
`tbNext`, unless it was chained already. -/
def TbAbs.addJump (a : TbAbs) (tb : ℕ) (n : Fin 2) (tbNext : ℕ) : TbAbs :=
  if a.chain tb n = none then { a with chain := setChain a.chain tb n (some tbNext) } else a

theorem tbAddJump_jumpsOnly {n : Fin 2} {tbNext : ℕ} : TbState.JumpsOnly s (tbAddJump s tb n tbNext) := by
  unfold tbAddJump
  split_ifs
  · exact (TbState.JumpsOnly.setTb tb _ rfl).trans (TbState.JumpsOnly.setTb tbNext _ rfl)
  · exact TbState.JumpsOnly.refl

theorem tbAddJump_jmpTarget {n : Fin 2} {tbNext : ℕ} (hn : (s.tbs tb).jmpNext n = none) (t : ℕ)
    (m : Fin 2) : ((tbAddJump s tb n tbNext).tbs t).jmpTarget m =
      if t = tb ∧ m = n then (s.tbs tbNext).tcPtr else (s.tbs t).jmpTarget m := by
  rw [tbAddJump, if_pos hn, TbState.setTb_field TranslationBlock.jmpTarget (by rfl)]
  by_cases ht : t = tb
  · subst ht
    by_cases hm : m = n
    · subst hm
      simp
    · simp [hm]
  · simp [ht]

/-- `tb_add_jump` from a TB in use to a TB in use, on a slot that has a
jump: the jump goes to the code of `tbNext` and the slot joins its list. -/
theorem TbInv.addJump (h : TbInv s a) (htb : tb ∈ a.live) {n : Fin 2} {tbNext : ℕ}
    (hnx : tbNext ∈ a.live) (hoff : (s.tbs tb).tbNextOffset n ≠ 0xffff) :
    TbInv (tbAddJump s tb n tbNext) (a.addJump tb n tbNext) := by
  unfold TbAbs.addJump
  split_ifs with hc
  · have hn : (s.tbs tb).jmpNext n = none := (h.jmps.next tb htb n).mpr hc
    have hjmps := h.jmps.push htb hnx hc
    have hJ : TbState.JumpsOnly s (tbAddJump s tb n tbNext) := tbAddJump_jumpsOnly
    obtain ⟨jn, jf, jt, hs'⟩ := hJ
    -- the jump of the slot goes to `tb_next`; the others stay
    have htargets : TargetStruct (tbAddJump s tb n tbNext) a.live (setChain a.chain tb n (some tbNext)) := by
      refine ⟨fun t m u hu => ?_, fun t ht m hm => ?_⟩
      · rw [hs']
        rw [setChain_apply] at hu
        split_ifs at hu with htm
        · obtain ⟨rfl, rfl⟩ := htm
          exact hoff
        · exact h.targets.slot t m u hu
      · rw [tbAddJump_jmpTarget hn, jumpDest, setChain_apply]
        rw [hs'] at hm ⊢
        split_ifs with htm
        · rfl
        · exact h.targets.target t ht m hm
    rw [hs'] at hjmps htargets ⊢
    exact ⟨h.config, h.lt, h.addr, h.phys, h.pages, hjmps, htargets,
      h.code.of_eq rfl rfl rfl (fun _ => rfl) (fun _ => rfl), h.cache⟩
  · have hn : (s.tbs tb).jmpNext n ≠ none := fun hn => hc ((h.jmps.next tb htb n).mp hn)
    rw [tbAddJump, if_neg hn]
    exact h

/-- The end of `tb_find_slow` for a TB in use: the CPU caches it at the hash
of its pc. -/
theorem TbInv.cacheSet (h : TbInv s a) (htb : tb ∈ a.live) (cpu : ℕ) :
    TbInv (tbJmpCacheSet s cpu tb) a := by
  refine ⟨h.config, h.lt, h.addr, h.phys, h.pages, ⟨h.jmps.list, h.jmps.next, h.jmps.live⟩,
    ⟨h.targets.slot, h.targets.target⟩, h.code.of_eq rfl rfl rfl (fun _ => rfl) (fun _ => rfl), ?_⟩
  intro cpu' k t hk
  simp only [tbJmpCacheSet] at hk
  by_cases hcpu : cpu' = cpu
  · subst hcpu
    by_cases hkh : k = tbJmpCacheHashFunc (s.tbs tb).pc
    · subst hkh
      simp only [update_self, Option.some.injEq] at hk
      subst hk
      exact ⟨htb, rfl⟩
    · rw [update_self, update_of_ne hkh] at hk
      exact h.cache cpu' k t hk
  · rw [update_of_ne hcpu] at hk
    exact h.cache cpu' k t hk

/-- The ghost state of a state with no TB in use. -/
def TbAbs.empty (code : ℕ → ℕ) : TbAbs := ⟨∅, fun _ _ => none, code⟩

/-- A state whose hash chains, page lists and jump caches are all empty
stands for no TB in use. -/
theorem TbInv.of_empty (hc : s.Config) (hptr : s.codeGenPtr ≤ s.codeGenBuffer + s.codeGenBufferSize)
    (hph : ∀ k, s.physHash k = none) (hft : ∀ p, s.firstTb p = none)
    (hjc : ∀ cpu k, s.jmpCache cpu k = none) (code : ℕ → ℕ) : TbInv s (TbAbs.empty code) := by
  refine ⟨hc, fun t ht => absurd ht (Finset.notMem_empty t), fun t ht => absurd ht (Finset.notMem_empty t),
    fun k => ⟨[], by simp [hph k], List.nodup_nil, by simp [TbAbs.empty]⟩,
    fun p => ⟨[], by simp [hft p], List.nodup_nil, by simp [TbAbs.empty, TbState.OnPage]⟩,
    ⟨fun u hu => absurd hu (Finset.notMem_empty u), fun t ht => absurd ht (Finset.notMem_empty t),
      fun _ _ _ hu => (by cases hu)⟩, ⟨fun _ _ _ hu => (by cases hu),
      fun t ht => absurd ht (Finset.notMem_empty t)⟩,
    ⟨hptr, fun t ht => absurd ht (Finset.notMem_empty t), fun t ht => absurd ht (Finset.notMem_empty t),
      fun t ht => absurd ht (Finset.notMem_empty t), fun t ht => absurd ht (Finset.notMem_empty t)⟩,
    fun cpu k t hk => by simp [hjc cpu k] at hk⟩

/-- `tb_flush` in a consistent state does not abort, and leaves no TB in
use. -/
theorem TbInv.flush (h : TbInv s a) :
    ∃ s', tbFlush s = some s' ∧ TbInv s' (TbAbs.empty a.code) ∧ s'.codeGenPtr = s'.codeGenBuffer ∧
      s'.nbTbs = 0 := by
  have hle : ¬s.codeGenBufferSize < s.codeGenPtr - s.codeGenBuffer := by
    have := h.code.ptr
    omega
  refine ⟨{ s with
    nbTbs := 0, jmpCache := fun _ _ => none, physHash := fun _ => none,
    firstTb := fun _ => none, codeGenPtr := s.codeGenBuffer }, by rw [tbFlush, if_neg hle], ?_, rfl, rfl⟩
  apply TbInv.of_empty
  · exact h.config
  · exact Nat.le_add_right _ _
  all_goals intros; rfl

end Ops

end QemuKvm.Exec
