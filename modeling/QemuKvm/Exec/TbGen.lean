import QemuKvm.Exec.TbInv

/-!
# `tb_gen_code` and `tb_link_page`

`tb_gen_code` takes the next entry of `tbs`, flushing every TB first when
`tb_alloc` finds no room, places the new TB's code at `code_gen_ptr`, and
links the TB in with `tb_link_page`. The code generator and
`get_page_addr_code` are not modelled: what they return is an input, and
`GenArgs` states what `tb_gen_code` relies on of it.

* `tbLinkPage_spec` gives the state `tb_link_page` leaves, from its three
  stages: the hash chain, the lists of the TB's pages, and its jumps;
* `TbInv.link` — `tb_link_page` on a TB not in use, whose code is placed,
  puts it in use: it is pushed on its hash chain and on the lists of its
  pages, its list of jumps is empty and its jumps go to their exits;
* `TbInv.genCode` — `tb_gen_code` from a consistent state does not fail,
  and the new TB is in use, with its code after that of every other.
-/

namespace QemuKvm.Exec

open Function HeapList

/-! ## The stages of `tb_link_page` -/

theorem tbLinkPage_eq (s : TbState) (tb physPc physPage2 : ℕ) :
    tbLinkPage s tb physPc physPage2 =
      tbLinkJumps (tbLinkPages (tbLinkPhys s tb physPc) tb physPc physPage2) tb := rfl

/-- The jump stage: every slot with a jump is reset to its exit. -/
theorem tbLinkJumps_eq (s : TbState) (tb : ℕ) :
    tbLinkJumps s tb = s.setTb tb { s.tbs tb with
      jmpFirst := .first tb, jmpNext := fun _ => none,
      jmpTarget := fun n => if (s.tbs tb).tbNextOffset n ≠ 0xffff then
        (s.tbs tb).tcPtr + (s.tbs tb).tbNextOffset n else (s.tbs tb).jmpTarget n } := by
  -- the two conditional resets, each on the slot's own offset
  by_cases h0 : (s.tbs tb).tbNextOffset 0 = 0xffff <;> by_cases h1 : (s.tbs tb).tbNextOffset 1 = 0xffff <;>
    simp only [tbLinkJumps, tbResetJump, TbState.setTb, update_self, update_idem, h0, h1, ne_eq,
      not_true_eq_false, not_false_eq_true, if_true, if_false] <;>
    congr 3 <;> funext n <;>
    rcases fin_two_eq_or_eq (show (0 : Fin 2) ≠ 1 by decide) n with rfl | rfl <;> simp [h0, h1]

/-- The state `tb_link_page` leaves: `tb` heads the chain of `phys_pc` and
the lists of its pages, its list of jumps is empty, and its jumps are
reset. -/
theorem tbLinkPage_spec (s : TbState) (tb physPc physPage2 : ℕ) :
    tbLinkPage s tb physPc physPage2 =
      let p₀ := (physPc - physPc % TARGET_PAGE_SIZE) >>> TARGET_PAGE_BITS
      let ft := update s.firstTb p₀ (some ⟨tb, 0⟩)
      let t := s.tbs tb
      { s with
        physHash := update s.physHash (tbPhysHashFunc physPc) (some tb)
        firstTb := if physPage2 ≠ tbPageAddrNone then
          update ft (physPage2 >>> TARGET_PAGE_BITS) (some ⟨tb, 1⟩) else ft
        tbs := update s.tbs tb { t with
          physHashNext := s.physHash (tbPhysHashFunc physPc)
          pageAddr := update (update t.pageAddr 0 (physPc - physPc % TARGET_PAGE_SIZE)) 1 physPage2
          pageNext := update (update t.pageNext 0 (s.firstTb p₀)) 1
            (if physPage2 ≠ tbPageAddrNone then ft (physPage2 >>> TARGET_PAGE_BITS) else t.pageNext 1)
          jmpTarget := fun n =>
            if t.tbNextOffset n ≠ 0xffff then t.tcPtr + t.tbNextOffset n else t.jmpTarget n
          jmpNext := fun _ => none
          jmpFirst := .first tb } } := by
  rw [tbLinkPage_eq, tbLinkJumps_eq]
  by_cases hp : physPage2 = tbPageAddrNone
  · -- no second page: `page_addr[1]` is set to `-1` and `page_next[1]` kept
    simp only [tbLinkPages, tbLinkPhys, tbAllocPage, TbState.setTb, hp, ne_eq, not_true_eq_false,
      if_false, update_self, update_idem]
    congr 3
    funext n
    rcases fin_two_eq_or_eq (show (0 : Fin 2) ≠ 1 by decide) n with rfl | rfl <;> simp
  · simp [tbLinkPages, tbLinkPhys, tbAllocPage, TbState.setTb, hp]

section Link

variable {s : TbState} {tb physPc physPage2 t : ℕ}

@[simp] theorem tbLinkPage_tbs_of_ne (ht : t ≠ tb) :
    (tbLinkPage s tb physPc physPage2).tbs t = s.tbs t := by
  rw [tbLinkPage_spec]
  exact update_of_ne ht _ _

@[simp] theorem tbLinkPage_physHash :
    (tbLinkPage s tb physPc physPage2).physHash = update s.physHash (tbPhysHashFunc physPc) (some tb) := by
  rw [tbLinkPage_spec]

@[simp] theorem tbLinkPage_nbTbs : (tbLinkPage s tb physPc physPage2).nbTbs = s.nbTbs := by
  rw [tbLinkPage_spec]

@[simp] theorem tbLinkPage_jmpCache : (tbLinkPage s tb physPc physPage2).jmpCache = s.jmpCache := by
  rw [tbLinkPage_spec]

@[simp] theorem tbLinkPage_codeGenPtr :
    (tbLinkPage s tb physPc physPage2).codeGenPtr = s.codeGenPtr := by
  rw [tbLinkPage_spec]

@[simp] theorem tbLinkPage_codeGenBuffer :
    (tbLinkPage s tb physPc physPage2).codeGenBuffer = s.codeGenBuffer := by
  rw [tbLinkPage_spec]

@[simp] theorem tbLinkPage_codeGenBufferSize :
    (tbLinkPage s tb physPc physPage2).codeGenBufferSize = s.codeGenBufferSize := by
  rw [tbLinkPage_spec]

/-- `tb_link_page` keeps the pc, the code and the jump offsets of every TB. -/
@[simp] theorem tbLinkPage_pc : ((tbLinkPage s tb physPc physPage2).tbs t).pc = (s.tbs t).pc := by
  rw [tbLinkPage_spec]
  exact TbState.setTb_field (s := s) (t := tb) TranslationBlock.pc (by rfl) t

@[simp] theorem tbLinkPage_tcPtr :
    ((tbLinkPage s tb physPc physPage2).tbs t).tcPtr = (s.tbs t).tcPtr := by
  rw [tbLinkPage_spec]
  exact TbState.setTb_field (s := s) (t := tb) TranslationBlock.tcPtr (by rfl) t

@[simp] theorem tbLinkPage_tbNextOffset :
    ((tbLinkPage s tb physPc physPage2).tbs t).tbNextOffset = (s.tbs t).tbNextOffset := by
  rw [tbLinkPage_spec]
  exact TbState.setTb_field (s := s) (t := tb) TranslationBlock.tbNextOffset (by rfl) t

theorem tbLinkPage_pageAddr_zero :
    ((tbLinkPage s tb physPc physPage2).tbs tb).pageAddr 0 = physPc - physPc % TARGET_PAGE_SIZE := by
  rw [tbLinkPage_spec]
  simp

theorem tbLinkPage_pageAddr_one :
    ((tbLinkPage s tb physPc physPage2).tbs tb).pageAddr 1 = physPage2 := by
  rw [tbLinkPage_spec]
  simp

theorem tbLinkPage_jmpTarget {n : Fin 2} (hn : (s.tbs tb).tbNextOffset n ≠ 0xffff) :
    ((tbLinkPage s tb physPc physPage2).tbs tb).jmpTarget n =
      (s.tbs tb).tcPtr + (s.tbs tb).tbNextOffset n := by
  rw [tbLinkPage_spec]
  simp [hn]

/-- The new TB is pushed on the chain of `phys_pc`, which is its own chain
when `phys_pc` is on the page of its first page address at the offset of
its pc. -/
theorem PhysStruct.link {L : Finset ℕ} (h : PhysStruct s L) (htb : tb ∉ L)
    (hpage : physPc % TARGET_PAGE_SIZE = (s.tbs tb).pc % TARGET_PAGE_SIZE) :
    PhysStruct (tbLinkPage s tb physPc physPage2) (insert tb L) := by
  have hne : ∀ t ∈ L, t ≠ tb := fun t ht htb' => htb (htb' ▸ ht)
  refine h.push htb tbLinkPage_physHash (fun t ht => ?_) ?_ (fun t ht => ?_) ?_
  · simp [TbState.physLink, hne t ht]
  · rw [tbLinkPage_spec]
    simp [TbState.physLink]
  · simp [TbState.physBucket, hne t ht]
  · -- the first page address and the offset of the pc add up to `phys_pc`
    have hsplit : physPc - physPc % TARGET_PAGE_SIZE + (s.tbs tb).pc % TARGET_PAGE_SIZE = physPc := by
      rw [← hpage]
      exact Nat.sub_add_cancel (Nat.mod_le _ _)
    rw [TbState.physBucket, tbLinkPage_pageAddr_zero, tbLinkPage_pc, hsplit]

/-- Which links of the TBs of `insert tb L` are on a page after
`tb_link_page`: those of `L` as before, the first of `tb`, and its second
unless `phys_page2` is `-1`. -/
theorem tbLinkPage_onPage {L : Finset ℕ} (htb : tb ∉ L)
    (hp0 : physPc - physPc % TARGET_PAGE_SIZE ≠ tbPageAddrNone) (x : PagePtr) :
    (tbLinkPage s tb physPc physPage2).OnPage (insert tb L) x ↔
      s.OnPage L x ∨ x = ⟨tb, 0⟩ ∨ (x = ⟨tb, 1⟩ ∧ physPage2 ≠ tbPageAddrNone) := by
  obtain ⟨t, n⟩ := x
  by_cases ht : t = tb
  · subst ht
    have hnot : ¬s.OnPage L ⟨t, n⟩ := fun hx => htb hx.1
    rw [TbState.OnPage]
    simp only [Finset.mem_insert_self, true_and, PagePtr.mk.injEq, hnot, false_or]
    rcases fin_two_eq_or_eq (show (0 : Fin 2) ≠ 1 by decide) n with rfl | rfl
    · simp [tbLinkPage_pageAddr_zero, hp0]
    · simp [tbLinkPage_pageAddr_one]
  · simp [TbState.OnPage, ht]

/-- The new TB is pushed on the list of its first page, and on that of its
second unless `phys_page2` is `-1`. -/
theorem PageStruct.link {L : Finset ℕ} (h : PageStruct s L) (htb : tb ∉ L)
    (hp0 : physPc - physPc % TARGET_PAGE_SIZE ≠ tbPageAddrNone) :
    PageStruct (tbLinkPage s tb physPc physPage2) (insert tb L) := by
  set s' := tbLinkPage s tb physPc physPage2 with hs'
  have hne : ∀ x : PagePtr, s.OnPage L x → x.tb ≠ tb := fun x hx hxt => htb (hxt ▸ hx.1)
  have hlink : ∀ x : PagePtr, s.OnPage L x → s'.pageLink x = s.pageLink x := fun x hx => by
    simp [TbState.pageLink, hs', hne x hx]
  have hkey : ∀ x : PagePtr, s.OnPage L x → s'.pageOf x = s.pageOf x := fun x hx => by
    simp [TbState.pageOf, hs', hne x hx]
  -- the push of the first page
  have h₁ := h.push (a := (⟨tb, 0⟩ : PagePtr)) (fun hx => htb hx.1) ((physPc - physPc % TARGET_PAGE_SIZE) >>> TARGET_PAGE_BITS)
    hlink (by rw [hs', tbLinkPage_spec]; simp [TbState.pageLink]) hkey
    (by rw [TbState.pageOf, tbLinkPage_pageAddr_zero])
  unfold PageStruct
  by_cases hp : physPage2 = tbPageAddrNone
  · -- no second page
    have hN : (s'.OnPage (insert tb L)) = fun x => s.OnPage L x ∨ x = ⟨tb, 0⟩ := by
      funext x
      simp [hs', tbLinkPage_onPage htb hp0, hp]
    have hft : s'.firstTb = update s.firstTb ((physPc - physPc % TARGET_PAGE_SIZE) >>> TARGET_PAGE_BITS)
        (some ⟨tb, 0⟩) := by
      rw [hs', tbLinkPage_spec]
      simp [hp]
    rw [hN, hft]
    exact h₁
  · -- the push of the second page
    have h₂ := h₁.push (a := (⟨tb, 1⟩ : PagePtr)) (by simp [TbState.OnPage, htb])
      (physPage2 >>> TARGET_PAGE_BITS) (fun _ _ => rfl)
      (by rw [hs', tbLinkPage_spec]; simp [TbState.pageLink, hp]) (fun _ _ => rfl)
      (by rw [TbState.pageOf, tbLinkPage_pageAddr_one])
    have hN : (s'.OnPage (insert tb L)) = fun x => (s.OnPage L x ∨ x = ⟨tb, 0⟩) ∨ x = ⟨tb, 1⟩ := by
      funext x
      simp [hs', tbLinkPage_onPage htb hp0, hp, or_assoc]
    have hft : s'.firstTb = update (update s.firstTb
        ((physPc - physPc % TARGET_PAGE_SIZE) >>> TARGET_PAGE_BITS) (some ⟨tb, 0⟩))
        (physPage2 >>> TARGET_PAGE_BITS) (some ⟨tb, 1⟩) := by
      rw [hs', tbLinkPage_spec]
      simp [hp]
    rw [hN, hft]
    exact h₂

/-- The new TB has an empty list of jumps to it and no slot chained. -/
theorem JmpStruct.link {L : Finset ℕ} {c : ℕ → Fin 2 → Option ℕ} (h : JmpStruct s L c)
    (htb : tb ∉ L) : JmpStruct (tbLinkPage s tb physPc physPage2) (Insert.insert tb L) c := by
  refine h.insert htb (fun q hq => ?_) ?_ fun m => ?_
  · cases q with
    | slot t n =>
      have ht : t ≠ tb := hq
      simp only [TbState.jmpLink]
      rw [tbLinkPage_tbs_of_ne ht]
    | first t =>
      have ht : t ≠ tb := hq
      simp only [TbState.jmpLink]
      rw [tbLinkPage_tbs_of_ne ht]
  · rw [tbLinkPage_spec]
    simp [TbState.jmpLink]
  · rw [tbLinkPage_spec]
    simp

/-- The jumps of the new TB go to their exits; the others are kept. -/
theorem TargetStruct.link {L : Finset ℕ} {c : ℕ → Fin 2 → Option ℕ} (h : TargetStruct s L c)
    (hlive : ∀ t m u, c t m = some u → t ∈ L ∧ u ∈ L) (htb : tb ∉ L) :
    TargetStruct (tbLinkPage s tb physPc physPage2) (insert tb L) c := by
  have hne : ∀ t ∈ L, t ≠ tb := fun t ht htb' => htb (htb' ▸ ht)
  refine ⟨fun t m u hu => ?_, fun t ht m hm => ?_⟩
  · rw [tbLinkPage_tbNextOffset]
    exact h.slot t m u hu
  · have hdest : jumpDest (tbLinkPage s tb physPc physPage2) c t m = jumpDest s c t m := by
      unfold jumpDest
      cases c t m <;> simp
    rw [tbLinkPage_tbNextOffset] at hm
    rw [hdest]
    rcases Finset.mem_insert.mp ht with rfl | htL
    · -- the new TB's slots are not chained
      have hc : c t m = none := by
        by_contra hne'
        obtain ⟨u, hu⟩ := Option.ne_none_iff_exists'.mp hne'
        exact htb (hlive t m u hu).1
      rw [tbLinkPage_jmpTarget hm, jumpDest, hc]
    · rw [tbLinkPage_tbs_of_ne (hne t htL)]
      exact h.target t htL m hm

theorem CacheStruct.link {L : Finset ℕ} (h : CacheStruct s L) :
    CacheStruct (tbLinkPage s tb physPc physPage2) (insert tb L) := by
  intro cpu k t hk
  rw [tbLinkPage_jmpCache] at hk
  obtain ⟨htL, hkt⟩ := h cpu k t hk
  exact ⟨Finset.mem_insert_of_mem htL, by rw [tbLinkPage_pc]; exact hkt⟩

/-- `tb_link_page` on a TB not in use, below `nb_tbs`, whose code is placed
(`hcode`): the TB is in use after it. -/
theorem TbInv.link {a : TbAbs} (h : TbInv s a) (htb : tb ∉ a.live) (hlt : tb < s.nbTbs)
    (hpage : physPc % TARGET_PAGE_SIZE = (s.tbs tb).pc % TARGET_PAGE_SIZE)
    (hp2 : physPage2 = tbPageAddrNone ∨ TARGET_PAGE_SIZE ∣ physPage2) {code : ℕ → ℕ}
    (hcode : CodeStruct s (insert tb a.live) code) :
    TbInv (tbLinkPage s tb physPc physPage2) ⟨insert tb a.live, a.chain, code⟩ := by
  have hdvd : TARGET_PAGE_SIZE ∣ physPc - physPc % TARGET_PAGE_SIZE := Nat.dvd_sub_mod physPc
  have hp0 : physPc - physPc % TARGET_PAGE_SIZE ≠ tbPageAddrNone := fun h0 =>
    tbPageAddrNone_not_dvd (h0 ▸ hdvd)
  refine ⟨?_, fun t ht => ?_, fun t ht => ?_, h.phys.link htb hpage, h.pages.link htb hp0,
    h.jmps.link htb, h.targets.link h.jmps.live htb, ?_, h.cache.link⟩
  · rw [TbState.Config, tbLinkPage_codeGenBufferSize, tbLinkPage_codeGenBuffer]
    exact h.config
  · rw [tbLinkPage_nbTbs]
    rcases Finset.mem_insert.mp ht with rfl | htL
    · exact hlt
    · exact h.lt t htL
  · rcases Finset.mem_insert.mp ht with rfl | htL
    · rw [tbLinkPage_pageAddr_zero, tbLinkPage_pageAddr_one]
      exact ⟨hdvd, hp2⟩
    · have htne : t ≠ tb := fun hte => htb (hte ▸ htL)
      rw [tbLinkPage_tbs_of_ne htne]
      exact h.addr t htL
  · exact hcode.of_eq tbLinkPage_codeGenPtr tbLinkPage_codeGenBuffer tbLinkPage_codeGenBufferSize
      (fun _ => tbLinkPage_tcPtr) fun _ => tbLinkPage_tbNextOffset

end Link

/-! ## The frame rule of the invariant -/

section Frame

variable {s s' : TbState} {L : Finset ℕ}

theorem PhysStruct.congr (h : PhysStruct s L) (hh : s'.physHash = s.physHash)
    (htbs : ∀ t ∈ L, s'.tbs t = s.tbs t) : PhysStruct s' L := by
  unfold PhysStruct
  rw [hh]
  exact Buckets.congr h (fun t ht => by simp [TbState.physLink, htbs t ht])
    fun t ht => by simp [TbState.physBucket, htbs t ht]

theorem PageStruct.congr (h : PageStruct s L) (hft : s'.firstTb = s.firstTb)
    (htbs : ∀ t ∈ L, s'.tbs t = s.tbs t) : PageStruct s' L := by
  have hN : s'.OnPage L = s.OnPage L :=
    funext fun x => propext (and_congr_right fun hx => by rw [htbs x.tb hx])
  unfold PageStruct
  rw [hN, hft]
  exact Buckets.congr h (fun x hx => by simp [TbState.pageLink, htbs x.tb hx.1])
    fun x hx => by simp [TbState.pageOf, htbs x.tb hx.1]

theorem JmpStruct.congr {c : ℕ → Fin 2 → Option ℕ} (h : JmpStruct s L c)
    (htbs : ∀ t ∈ L, s'.tbs t = s.tbs t) : JmpStruct s' L c := by
  have hlink : ∀ q : JmpPtr, q.tb ∈ L → s'.jmpLink q = s.jmpLink q := by
    intro q hq
    cases q with
    | slot t n => simp [TbState.jmpLink, htbs t hq]
    | first t => simp [TbState.jmpLink, htbs t hq]
  refine ⟨fun u hu => ?_, fun t ht m => ?_, h.live⟩
  · obtain ⟨l, hseg, hnd, hmem⟩ := h.list u hu
    refine ⟨l, ?_, hnd, hmem⟩
    rw [hlink (.first u) hu]
    refine hseg.congr fun q hq => hlink q ?_
    obtain ⟨x, hx, rfl⟩ := List.mem_map.mp hq
    exact (h.live _ _ u ((hmem x).mp hx)).1
  · rw [htbs t ht]
    exact h.next t ht m

theorem TargetStruct.congr {c : ℕ → Fin 2 → Option ℕ} (h : TargetStruct s L c)
    (hlive : ∀ t m u, c t m = some u → t ∈ L ∧ u ∈ L) (htbs : ∀ t ∈ L, s'.tbs t = s.tbs t) :
    TargetStruct s' L c := by
  refine ⟨fun t m u hu => ?_, fun t ht m hm => ?_⟩
  · rw [htbs t (hlive t m u hu).1]
    exact h.slot t m u hu
  · rw [htbs t ht] at hm ⊢
    rw [h.target t ht m hm, jumpDest, jumpDest]
    cases hc : c t m with
    | none => simp [htbs t ht]
    | some u => simp [htbs u (hlive t m u hc).2]

/-- The code layout of the TBs of `L` stays when `code_gen_ptr` moves up
within the buffer. -/
theorem CodeStruct.congr {code : ℕ → ℕ} (h : CodeStruct s L code) (htbs : ∀ t ∈ L, s'.tbs t = s.tbs t)
    (hptr : s.codeGenPtr ≤ s'.codeGenPtr)
    (hptr' : s'.codeGenPtr ≤ s'.codeGenBuffer + s'.codeGenBufferSize) : CodeStruct s' L code := by
  refine ⟨hptr', h.size, fun t ht => ?_, fun t ht m hm => ?_, fun t ht u hu htu => ?_⟩
  · rw [htbs t ht]
    exact (h.below t ht).trans hptr
  · rw [htbs t ht] at hm ⊢
    exact h.offset t ht m hm
  · rw [htbs t ht, htbs u hu]
    exact h.disjoint t ht u hu htu

theorem CacheStruct.congr (h : CacheStruct s L) (hjc : s'.jmpCache = s.jmpCache)
    (htbs : ∀ t ∈ L, s'.tbs t = s.tbs t) : CacheStruct s' L := by
  intro cpu k t hk
  rw [hjc] at hk
  obtain ⟨htL, hkt⟩ := h cpu k t hk
  exact ⟨htL, by rw [htbs t htL]; exact hkt⟩

/-- The invariant reads the TBs in use and the heads of the lists: a state
that keeps them, with the same buffer and `code_gen_ptr` moved up within
it, stands for the same ghost state. -/
theorem TbInv.frame {a : TbAbs} (h : TbInv s a) (htbs : ∀ t ∈ a.live, s'.tbs t = s.tbs t)
    (hn : s.nbTbs ≤ s'.nbTbs) (hph : s'.physHash = s.physHash) (hft : s'.firstTb = s.firstTb)
    (hjc : s'.jmpCache = s.jmpCache) (hbuf : s'.codeGenBuffer = s.codeGenBuffer)
    (hsize : s'.codeGenBufferSize = s.codeGenBufferSize) (hptr : s.codeGenPtr ≤ s'.codeGenPtr)
    (hptr' : s'.codeGenPtr ≤ s'.codeGenBuffer + s'.codeGenBufferSize) : TbInv s' a := by
  refine ⟨?_, fun t ht => (h.lt t ht).trans_le hn, fun t ht => ?_, h.phys.congr hph htbs,
    h.pages.congr hft htbs, h.jmps.congr htbs, h.targets.congr h.jmps.live htbs,
    h.code.congr htbs hptr hptr', h.cache.congr hjc htbs⟩
  · rw [TbState.Config, hbuf, hsize]
    exact h.config
  · rw [htbs t ht]
    exact h.addr t ht

end Frame

/-! ## `tb_gen_code` -/

/-- The part of `tb_gen_code` between `tb_alloc` and `tb_link_page`: the
TB's code is placed at `code_gen_ptr`, and `code_gen_ptr` moves past it to
the next `CODE_GEN_ALIGN` boundary. -/
def tbPlaceCode (s : TbState) (tb codeGenSize : ℕ) (tbNextOffset : Fin 2 → ℕ) : TbState :=
  let s := s.setTb tb { s.tbs tb with tcPtr := s.codeGenPtr, tbNextOffset := tbNextOffset }
  { s with codeGenPtr := alignUp CODE_GEN_ALIGN (s.codeGenPtr + codeGenSize) }

/-- What `tb_gen_code` relies on of what it does not model: the code
generator emits at least one byte and at most `TCG_MAX_OP_SIZE` bytes for
each of at most `OPC_BUF_SIZE` ops, with the jumps of its slots inside the
code; `get_page_addr_code` gives `phys_pc` at the offset of `pc` in its
page, and the start of the second page. -/
structure GenArgs (pc physPc physPage2 codeGenSize : ℕ) (tbNextOffset : Fin 2 → ℕ) : Prop where
  size_pos : 0 < codeGenSize
  size_le : codeGenSize ≤ TCG_MAX_OP_SIZE * OPC_BUF_SIZE
  offset : ∀ n, tbNextOffset n ≠ 0xffff → tbNextOffset n < codeGenSize
  page : physPc % TARGET_PAGE_SIZE = pc % TARGET_PAGE_SIZE
  page2 : physPage2 = tbPageAddrNone ∨ TARGET_PAGE_SIZE ∣ physPage2

/-- What `tb_gen_code` does to the ghost state: after the flush, if there
was one, the new TB is in use with its code size. -/
def TbAbs.genCode (a : TbAbs) (s : TbState) (pc tb codeGenSize : ℕ) : TbAbs :=
  let a := if (tbAlloc s pc).isSome then a else TbAbs.empty a.code
  ⟨insert tb a.live, a.chain, update a.code tb codeGenSize⟩

section Gen

variable {s s₁ : TbState} {a : TbAbs} {pc physPc physPage2 codeGenSize tb : ℕ}
  {tbNextOffset : Fin 2 → ℕ}

theorem tbGenCode_of_alloc (h : tbAlloc s pc = some (s₁, tb)) :
    tbGenCode s pc physPc physPage2 codeGenSize tbNextOffset =
      some (tbLinkPage (tbPlaceCode s₁ tb codeGenSize tbNextOffset) tb physPc physPage2, tb) := by
  simp [tbGenCode, h, tbPlaceCode]

theorem tbGenCode_of_flush {s₀ : TbState} (h : tbAlloc s pc = none) (hf : tbFlush s = some s₀)
    (h₀ : tbAlloc s₀ pc = some (s₁, tb)) :
    tbGenCode s pc physPc physPage2 codeGenSize tbNextOffset =
      some (tbLinkPage (tbPlaceCode s₁ tb codeGenSize tbNextOffset) tb physPc physPage2, tb) := by
  simp [tbGenCode, h, hf, h₀, tbPlaceCode]

/-- `tb_alloc`, when it finds room, hands out the entry `nb_tbs`, which no
TB in use has, and leaves room in the buffer for the largest code. -/
theorem TbInv.alloc (h : TbInv s a) (halloc : tbAlloc s pc = some (s₁, tb)) :
    TbInv s₁ a ∧ tb ∉ a.live ∧ tb < s₁.nbTbs ∧ (s₁.tbs tb).pc = pc ∧
      s₁.codeGenPtr + TCG_MAX_OP_SIZE * OPC_BUF_SIZE < s₁.codeGenBuffer + s₁.codeGenBufferSize := by
  unfold tbAlloc at halloc
  split_ifs at halloc with hfull
  obtain ⟨rfl, rfl⟩ := Prod.mk.inj (Option.some.inj halloc)
  have hne : ∀ t ∈ a.live, t ≠ s.nbTbs := fun t ht => (h.lt t ht).ne
  refine ⟨h.frame (fun t ht => update_of_ne (hne t ht) _ _) (Nat.le_succ _) rfl rfl rfl rfl rfl le_rfl
    ?_, fun ht => hne _ ht rfl, Nat.lt_succ_self _, by simp, ?_⟩
  all_goals
    simp only [not_or, not_le, TbState.codeGenBufferMaxSize] at hfull
    simp only [TbState.setTb]
    omega

/-- Placing the code of a TB not in use, with room for it in the buffer. -/
theorem TbInv.place (h : TbInv s a) (htb : tb ∉ a.live) (hlt : tb < s.nbTbs)
    (hroom : s.codeGenPtr + codeGenSize ≤ s.codeGenBuffer + s.codeGenBufferSize)
    (hsize : 0 < codeGenSize) (hoff : ∀ n, tbNextOffset n ≠ 0xffff → tbNextOffset n < codeGenSize) :
    TbInv (tbPlaceCode s tb codeGenSize tbNextOffset) a ∧
      CodeStruct (tbPlaceCode s tb codeGenSize tbNextOffset) (insert tb a.live)
        (update a.code tb codeGenSize) := by
  set s' := tbPlaceCode s tb codeGenSize tbNextOffset with hs'
  have hne : ∀ t ∈ a.live, t ≠ tb := fun t ht hte => htb (hte ▸ ht)
  have htbs : ∀ t ∈ a.live, s'.tbs t = s.tbs t := fun t ht => update_of_ne (hne t ht) _ _
  have htb' : s'.tbs tb = { s.tbs tb with tcPtr := s.codeGenPtr, tbNextOffset := tbNextOffset } :=
    update_self _ _ _
  -- the end of the buffer is aligned, so the aligned pointer stays within it
  have hup : s.codeGenPtr + codeGenSize ≤ s'.codeGenPtr := le_alignUp (by decide) _
  have hptr' : s'.codeGenPtr ≤ s'.codeGenBuffer + s'.codeGenBufferSize := by
    show alignUp CODE_GEN_ALIGN (s.codeGenPtr + codeGenSize) ≤ s.codeGenBuffer + s.codeGenBufferSize
    refine not_lt.mp fun hlt' => ?_
    rw [lt_alignUp_iff (by decide) h.config.2] at hlt'
    omega
  have hcode := h.code.congr htbs (by omega) hptr'
  refine ⟨h.frame htbs le_rfl rfl rfl rfl rfl rfl (by omega) hptr', hptr', fun t ht => ?_,
    fun t ht => ?_, fun t ht m hm => ?_, fun t ht u hu htu => ?_⟩
  · rcases Finset.mem_insert.mp ht with rfl | htL
    · simpa using hsize
    · rw [update_of_ne (hne t htL)]
      exact h.code.size t htL
  · rcases Finset.mem_insert.mp ht with rfl | htL
    · rw [htb', update_self]
      exact hup
    · rw [update_of_ne (hne t htL)]
      exact hcode.below t htL
  · rcases Finset.mem_insert.mp ht with rfl | htL
    · rw [htb'] at hm ⊢
      rw [update_self]
      exact hoff m hm
    · rw [update_of_ne (hne t htL)]
      exact hcode.offset t htL m hm
  · -- the new code starts where the code of every TB in use ends
    have hbelow : ∀ u ∈ a.live, (s'.tbs u).tcPtr + a.code u ≤ (s'.tbs tb).tcPtr := fun u hu => by
      rw [htb', htbs u hu]
      exact h.code.below u hu
    rcases Finset.mem_insert.mp ht with rfl | htL <;> rcases Finset.mem_insert.mp hu with rfl | huL
    · exact absurd rfl htu
    · rw [update_of_ne (hne u huL)]
      exact .inr (hbelow u huL)
    · rw [update_of_ne (hne t htL)]
      exact .inl (hbelow t htL)
    · rw [update_of_ne (hne t htL), update_of_ne (hne u huL)]
      exact hcode.disjoint t htL u huL htu

/-- An allocated entry, its code placed and linked in. -/
theorem TbInv.allocLink (h : TbInv s a) (hg : GenArgs pc physPc physPage2 codeGenSize tbNextOffset)
    (halloc : tbAlloc s pc = some (s₁, tb)) :
    TbInv (tbLinkPage (tbPlaceCode s₁ tb codeGenSize tbNextOffset) tb physPc physPage2)
      ⟨insert tb a.live, a.chain, update a.code tb codeGenSize⟩ := by
  obtain ⟨h₁, htb, hlt, hpc, hroom⟩ := h.alloc halloc
  have hsize := hg.size_le
  obtain ⟨h₂, hcode⟩ := h₁.place htb hlt (by omega) hg.size_pos hg.offset
  have hpc' : ((tbPlaceCode s₁ tb codeGenSize tbNextOffset).tbs tb).pc = pc := by
    simpa [tbPlaceCode] using hpc
  exact h₂.link htb hlt (by rw [hpc']; exact hg.page) hg.page2 hcode

/-- `tb_gen_code` from a consistent state: `tb_alloc` finds room, at once
or after `tb_flush`, and the new TB is in use, with its code after that of
every other TB in use. -/
theorem TbInv.genCode (h : TbInv s a) (hg : GenArgs pc physPc physPage2 codeGenSize tbNextOffset) :
    ∃ s' tb, tbGenCode s pc physPc physPage2 codeGenSize tbNextOffset = some (s', tb) ∧
      TbInv s' (a.genCode s pc tb codeGenSize) := by
  cases halloc : tbAlloc s pc with
  | some r =>
    obtain ⟨s₁, tb⟩ := r
    refine ⟨_, tb, tbGenCode_of_alloc halloc, ?_⟩
    simpa [TbAbs.genCode, halloc] using h.allocLink hg halloc
  | none =>
    -- after the flush there is room: no TB, and an empty buffer of at least
    -- `MIN_CODE_GEN_BUFFER_SIZE` bytes
    obtain ⟨s₀, hf, h₀, hptr, hn⟩ := h.flush
    have hroom : ¬(s₀.codeGenMaxBlocks ≤ s₀.nbTbs ∨
        s₀.codeGenBufferMaxSize ≤ s₀.codeGenPtr - s₀.codeGenBuffer) := by
      have hmin := h₀.config.1
      simp only [TbState.codeGenMaxBlocks, TbState.codeGenBufferMaxSize, hptr, hn, Nat.sub_self,
        MIN_CODE_GEN_BUFFER_SIZE, CODE_GEN_AVG_BLOCK_SIZE, TCG_MAX_OP_SIZE, OPC_BUF_SIZE] at hmin ⊢
      omega
    obtain ⟨⟨s₁, tb⟩, halloc₀⟩ : ∃ r, tbAlloc s₀ pc = some r := ⟨_, by rw [tbAlloc, if_neg hroom]⟩
    refine ⟨_, tb, tbGenCode_of_flush halloc hf halloc₀, ?_⟩
    simpa [TbAbs.genCode, halloc] using h₀.allocLink hg halloc₀

end Gen

end QemuKvm.Exec
