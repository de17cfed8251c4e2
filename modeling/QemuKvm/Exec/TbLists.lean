import Mathlib.Data.Fintype.Prod
import QemuKvm.Exec.Tb

/-!
# What the TB lists stand for

Each structure below says what the lists of one kind hold, relative to a
set `L` of TBs in use: the hash chains (`PhysStruct`), the page lists
(`PageStruct`) and the jump lists (`JmpStruct`, relative also to the slot
each jump is chained to), with the jump targets (`TargetStruct`), the code
layout (`CodeStruct`) and `tb_jmp_cache` (`CacheStruct`) beside them.

For every structure there is a frame rule (`congr`: a state that agrees
with the old one on what the structure reads keeps it), and for every
function of `Tb` that changes what it reads, a rule for the change: a TB
pushed on a list, taken out of it, a jump chained or reset. The
invariant of whole runs is assembled from them in `TbRun`.
-/

namespace QemuKvm.Exec

open Function HeapList

/-! ## Stores into one TB -/

namespace TbState

variable {s : TbState} {t u : ℕ} {b : TranslationBlock}

@[simp] theorem setTb_tbs : (s.setTb t b).tbs = update s.tbs t b := rfl
@[simp] theorem setTb_nbTbs : (s.setTb t b).nbTbs = s.nbTbs := rfl
@[simp] theorem setTb_physHash : (s.setTb t b).physHash = s.physHash := rfl
@[simp] theorem setTb_firstTb : (s.setTb t b).firstTb = s.firstTb := rfl
@[simp] theorem setTb_jmpCache : (s.setTb t b).jmpCache = s.jmpCache := rfl
@[simp] theorem setTb_codeGenBuffer : (s.setTb t b).codeGenBuffer = s.codeGenBuffer := rfl
@[simp] theorem setTb_codeGenBufferSize :
    (s.setTb t b).codeGenBufferSize = s.codeGenBufferSize := rfl
@[simp] theorem setTb_codeGenPtr : (s.setTb t b).codeGenPtr = s.codeGenPtr := rfl

/-- A store into one TB keeps what it does not change of that TB, and the
other TBs. -/
theorem setTb_field {β : Type*} (F : TranslationBlock → β) (hF : F b = F (s.tbs t)) (u : ℕ) :
    F ((s.setTb t b).tbs u) = F (s.tbs u) := by
  by_cases hu : u = t
  · subst hu
    simpa using hF
  · simp [update_of_ne hu]

/-- `s` with other heads and links of the hash chains. -/
def withPhys (ph hn : ℕ → Option ℕ) : TbState :=
  { s with physHash := ph, tbs := fun t => { s.tbs t with physHashNext := hn t } }

@[simp] theorem withPhys_physHash {ph hn} : (s.withPhys ph hn).physHash = ph := rfl
@[simp] theorem withPhys_physLink {ph hn} : (s.withPhys ph hn).physLink = hn := rfl
@[simp] theorem withPhys_physBucket {ph hn} : (s.withPhys ph hn).physBucket = s.physBucket := rfl

/-- A store into one `phys_hash_next` link. -/
theorem setTb_physHashNext (v : Option ℕ) :
    s.setTb t { s.tbs t with physHashNext := v } = s.withPhys s.physHash (update s.physLink t v) := by
  unfold TbState.setTb withPhys
  congr 1
  funext u
  by_cases hu : u = t
  · subst hu
    simp
  · simp [update_of_ne hu, physLink]

/-- `s` with other heads and links of the page lists. -/
def withPages (ft : ℕ → Option PagePtr) (pl : PagePtr → Option PagePtr) : TbState :=
  { s with firstTb := ft, tbs := fun t => { s.tbs t with pageNext := fun n => pl ⟨t, n⟩ } }

@[simp] theorem withPages_firstTb {ft pl} : (s.withPages ft pl).firstTb = ft := rfl
@[simp] theorem withPages_pageLink {ft pl} : (s.withPages ft pl).pageLink = pl := rfl

/-- A store into one `page_next` link. -/
theorem setTb_pageNext (x : PagePtr) (v : Option PagePtr) :
    s.setTb x.tb { s.tbs x.tb with pageNext := update (s.tbs x.tb).pageNext x.n v } =
      s.withPages s.firstTb (update s.pageLink x v) := by
  unfold TbState.setTb withPages
  congr 1
  funext u
  by_cases hu : u = x.tb
  · subst hu
    simp only [update_self]
    congr 1
    funext n
    by_cases hn : n = x.n
    · subst hn
      simp
    · have hx : (⟨x.tb, n⟩ : PagePtr) ≠ x := fun hx => hn (congrArg PagePtr.n hx)
      simp [update_of_ne hn, update_of_ne hx, pageLink]
  · have hx : ∀ n, (⟨u, n⟩ : PagePtr) ≠ x := fun n hx => hu (congrArg PagePtr.tb hx)
    simp [update_of_ne hu, update_of_ne (hx _), pageLink]

/-- `s` with other jump lists and patched jumps. -/
def withJumps (jn : ℕ → Fin 2 → Option JmpPtr) (jf : ℕ → JmpPtr) (jt : ℕ → Fin 2 → ℕ) :
    TbState :=
  { s with tbs := fun t => { s.tbs t with jmpNext := jn t, jmpFirst := jf t, jmpTarget := jt t } }

/-- What the jump stores change: `s'` is `s` with other jump lists and
jumps. -/
def JumpsOnly (s s' : TbState) : Prop := ∃ jn jf jt, s' = s.withJumps jn jf jt

theorem JumpsOnly.refl : JumpsOnly s s := ⟨fun t => (s.tbs t).jmpNext, fun t => (s.tbs t).jmpFirst,
  fun t => (s.tbs t).jmpTarget, rfl⟩

theorem JumpsOnly.trans {s' s'' : TbState} (h : JumpsOnly s s') (h' : JumpsOnly s' s'') :
    JumpsOnly s s'' := by
  obtain ⟨jn, jf, jt, rfl⟩ := h
  obtain ⟨jn', jf', jt', rfl⟩ := h'
  exact ⟨jn', jf', jt', rfl⟩

/-- A store into one TB that changes only its jump fields. -/
theorem JumpsOnly.setTb (t : ℕ) (b : TranslationBlock) (hb : b = { s.tbs t with
    jmpNext := b.jmpNext, jmpFirst := b.jmpFirst, jmpTarget := b.jmpTarget }) :
    JumpsOnly s (s.setTb t b) := by
  refine ⟨fun u => (update s.tbs t b u).jmpNext, fun u => (update s.tbs t b u).jmpFirst,
    fun u => (update s.tbs t b u).jmpTarget, ?_⟩
  unfold TbState.setTb withJumps
  congr 1
  funext u
  by_cases hu : u = t
  · subst hu
    simpa using hb
  · simp [update_of_ne hu]

theorem JumpsOnly.writeJmp (ℓ p : JmpPtr) : JumpsOnly s (s.writeJmp ℓ p) := by
  cases ℓ with
  | slot t n => exact JumpsOnly.setTb t _ rfl
  | first t => exact JumpsOnly.setTb t _ rfl

theorem JumpsOnly.tbResetJump (tb : ℕ) (n : Fin 2) : JumpsOnly s (tbResetJump s tb n) :=
  JumpsOnly.setTb tb _ rfl

@[simp] theorem withJumps_nbTbs {jn jf jt} : (s.withJumps jn jf jt).nbTbs = s.nbTbs := rfl

/-- `tb->jmp_next[n] = NULL`. -/
def clearJmpNext (s : TbState) (t : ℕ) (n : Fin 2) : TbState :=
  s.setTb t { s.tbs t with jmpNext := update (s.tbs t).jmpNext n none }

theorem jmpTarget_writeJmp (ℓ p : JmpPtr) (u : ℕ) :
    ((s.writeJmp ℓ p).tbs u).jmpTarget = (s.tbs u).jmpTarget := by
  cases ℓ <;> exact setTb_field TranslationBlock.jmpTarget (by rfl) u

theorem jmpTarget_clearJmpNext (n : Fin 2) (u : ℕ) :
    ((s.clearJmpNext t n).tbs u).jmpTarget = (s.tbs u).jmpTarget :=
  setTb_field TranslationBlock.jmpTarget (by rfl) u

theorem jmpTarget_tbResetJump (tb : ℕ) (n : Fin 2) (u : ℕ) (m : Fin 2) :
    ((tbResetJump s tb n).tbs u).jmpTarget m =
      if u = tb ∧ m = n then (s.tbs tb).tcPtr + (s.tbs tb).tbNextOffset n else (s.tbs u).jmpTarget m := by
  by_cases hu : u = tb
  · subst hu
    by_cases hm : m = n
    · subst hm
      simp [tbResetJump]
    · simp [tbResetJump, hm]
  · simp [tbResetJump, hu]

theorem jmpLink_setTb_of_ne {q : JmpPtr} (hq : q.tb ≠ t) : (s.setTb t b).jmpLink q = s.jmpLink q := by
  cases q <;> simp_all [jmpLink, JmpPtr.tb, setTb, update_of_ne]

theorem jmpLink_writeJmp (ℓ p : JmpPtr) : (s.writeJmp ℓ p).jmpLink = update s.jmpLink ℓ (some p) := by
  funext q
  by_cases hq : q = ℓ
  · subst hq
    cases q <;> simp [writeJmp, jmpLink, setTb]
  rw [update_of_ne hq]
  by_cases ht : q.tb = ℓ.tb
  · -- another link of the same TB
    cases ℓ <;> cases q <;> simp_all [writeJmp, jmpLink, setTb, JmpPtr.tb]
  · cases ℓ <;> exact jmpLink_setTb_of_ne ht

theorem jmpLink_clearJmpNext (n : Fin 2) :
    (s.clearJmpNext t n).jmpLink = update s.jmpLink (.slot t n) none := by
  funext q
  by_cases hq : q = .slot t n
  · subst hq
    simp [clearJmpNext, jmpLink, setTb]
  rw [update_of_ne hq]
  by_cases ht : q.tb = t
  · cases q <;> simp_all [clearJmpNext, jmpLink, setTb, JmpPtr.tb]
  · exact jmpLink_setTb_of_ne ht

theorem jmpLink_setTb_eq (b' : TranslationBlock) (hn : b.jmpNext = b'.jmpNext)
    (hf : b.jmpFirst = b'.jmpFirst) : (s.setTb t b).jmpLink = (s.setTb t b').jmpLink := by
  funext q
  by_cases ht : q.tb = t
  · cases q <;> simp_all [jmpLink, setTb, JmpPtr.tb]
  · rw [jmpLink_setTb_of_ne ht, jmpLink_setTb_of_ne ht]

theorem jmpLink_tbResetJump (n : Fin 2) : (tbResetJump s t n).jmpLink = s.jmpLink := by
  funext q
  by_cases ht : q.tb = t
  · cases q <;> simp_all [tbResetJump, jmpLink, setTb, JmpPtr.tb]
  · exact jmpLink_setTb_of_ne ht

end TbState

/-! ## Lengths of lists of TBs -/

theorem length_le_card {l : List ℕ} {L : Finset ℕ} (hnd : l.Nodup) (hl : ∀ x ∈ l, x ∈ L) :
    l.length ≤ L.card := by
  rw [← List.toFinset_card_of_nodup hnd]
  exact Finset.card_le_card fun x hx => hl x (List.mem_toFinset.mp hx)

/-- A list of distinct jump slots of the TBs of `L` has at most two per TB. -/
theorem length_le_of_slots {l : List (ℕ × Fin 2)} {L : Finset ℕ} (hnd : l.Nodup)
    (hl : ∀ x ∈ l, x.1 ∈ L) : l.length ≤ 2 * L.card := by
  have hsub : l.toFinset ⊆ L ×ˢ Finset.univ := by
    intro x hx
    simpa using hl x (List.mem_toFinset.mp hx)
  calc l.length = l.toFinset.card := (List.toFinset_card_of_nodup hnd).symm
    _ ≤ (L ×ˢ (Finset.univ : Finset (Fin 2))).card := Finset.card_le_card hsub
    _ = 2 * L.card := by rw [Finset.card_product, Finset.card_univ, Fintype.card_fin, Nat.mul_comm]

/-! ## The hash chains -/

/-- The chains of `tb_phys_hash` list, once each, the TBs of `L` of their
hash. -/
def PhysStruct (s : TbState) (L : Finset ℕ) : Prop :=
  Buckets s.physLink s.physHash s.physBucket (· ∈ L)

section Phys

variable {s s' : TbState} {L : Finset ℕ} {tb : ℕ}

/-- `tb_link_page`'s push of a TB not in use on the chain of its hash. -/
theorem PhysStruct.push {k : ℕ} (h : PhysStruct s L) (htb : tb ∉ L)
    (hh : s'.physHash = update s.physHash k (some tb)) (hl : ∀ t ∈ L, s'.physLink t = s.physLink t)
    (hltb : s'.physLink tb = s.physHash k) (hb : ∀ t ∈ L, s'.physBucket t = s.physBucket t)
    (hbtb : s'.physBucket tb = k) : PhysStruct s' (insert tb L) := by
  have h' := Buckets.push h htb k hl hltb hb hbtb
  have hL : (fun t => t ∈ L ∨ t = tb) = (· ∈ insert tb L) := by
    funext t
    simp [or_comm]
  rw [PhysStruct, hh, ← hL]
  exact h'

/-- `tb_remove` on the chain of a TB in use: with as many rounds as there
are TBs in use, it takes the TB out of its chain and leaves the others;
what it changes is a chain's head or a `phys_hash_next` link. -/
theorem PhysStruct.remove (h : PhysStruct s L) (htb : tb ∈ L) {fuel : ℕ} (hfuel : L.card ≤ fuel) :
    ∃ ph hn, tbPhysHashRemove fuel s (s.physBucket tb) tb = some (s.withPhys ph hn) ∧
      PhysStruct (s.withPhys ph hn) (L.erase tb) := by
  obtain ⟨a, -, hPa, -, hcase⟩ := Buckets.remove (P := fun t => decide (t = tb)) h htb (by simp)
    fun l hnd hl => (length_le_card hnd hl).trans hfuel
  have hatb : a = tb := by simpa using hPa
  subst a
  have hL : (fun t => t ∈ L ∧ t ≠ tb) = (· ∈ L.erase tb) := by
    funext t
    simp [and_comm]
  rw [hL] at hcase
  rcases hcase with ⟨hfind, h'⟩ | ⟨b, -, -, hfind, h'⟩
  · -- `tb` is the head: the head moves to the TB after it
    exact ⟨update s.physHash (s.physBucket tb) (s.physLink tb), s.physLink,
      by simp [tbPhysHashRemove, hfind]; rfl, h'⟩
  · -- the TB `b` before `tb` links past it
    exact ⟨s.physHash, update s.physLink b (s.physLink tb),
      by simp [tbPhysHashRemove, hfind, TbState.setTb_physHashNext]; rfl, h'⟩

end Phys

/-! ## The page lists -/

namespace TbState

variable (s : TbState)

/-- The page a link of a page list is for: `page_addr[n] >> TARGET_PAGE_BITS`. -/
def pageOf (x : PagePtr) : ℕ := (s.tbs x.tb).pageAddr x.n >>> TARGET_PAGE_BITS

/-- The pages of the TBs of `L`: the first of each, and the second unless
its `page_addr[1]` is `-1`. -/
def OnPage (L : Finset ℕ) (x : PagePtr) : Prop :=
  x.tb ∈ L ∧ (s.tbs x.tb).pageAddr x.n ≠ tbPageAddrNone

end TbState

/-- The list of every page holds, once each, the links of the TBs of `L` on
that page. -/
def PageStruct (s : TbState) (L : Finset ℕ) : Prop :=
  Buckets s.pageLink s.firstTb s.pageOf (s.OnPage L)

section Pages

variable {s : TbState} {L : Finset ℕ} {tb : ℕ}

/-- A list of distinct links of the TBs of `L` has at most two per TB. -/
theorem length_le_of_pagePtrs {l : List PagePtr} (hnd : l.Nodup) (hl : ∀ x ∈ l, x.tb ∈ L) :
    l.length ≤ 2 * L.card := by
  have hinj : Injective fun x : PagePtr => (x.tb, x.n) := by
    rintro ⟨t, n⟩ ⟨t', n'⟩ h
    simp only [Prod.mk.injEq] at h
    rw [h.1, h.2]
  have hsub : (l.map fun x => (x.tb, x.n)).toFinset ⊆ L ×ˢ Finset.univ := by
    intro y hy
    simp only [List.mem_toFinset, List.mem_map] at hy
    obtain ⟨x, hx, rfl⟩ := hy
    simpa using hl x hx
  calc l.length = (l.map fun x => (x.tb, x.n)).toFinset.card := by
        rw [List.toFinset_card_of_nodup (hnd.map hinj), List.length_map]
    _ ≤ (L ×ˢ (Finset.univ : Finset (Fin 2))).card := Finset.card_le_card hsub
    _ = 2 * L.card := by rw [Finset.card_product, Finset.card_univ, Fintype.card_fin, Nat.mul_comm]

/-- `tb_page_remove` on the list of the page of a link `x₀` of `tb`: it
takes out the first link of `tb` on that list, which may be `x₀` or the
other link of `tb` when both pages of `tb` are the same. -/
theorem tbPageRemove_spec {N : PagePtr → Prop} {x₀ : PagePtr} {fuel : ℕ}
    (h : Buckets s.pageLink s.firstTb s.pageOf N) (hx₀ : N x₀) (htb : x₀.tb = tb)
    (hfuel : ∀ l : List PagePtr, l.Nodup → (∀ x ∈ l, N x) → l.length ≤ fuel) :
    ∃ x ft pl, N x ∧ x.tb = tb ∧ s.pageOf x = s.pageOf x₀ ∧
      tbPageRemove fuel s (s.pageOf x₀) tb = some (s.withPages ft pl) ∧
      Buckets pl ft s.pageOf fun y => N y ∧ y ≠ x := by
  obtain ⟨x, hx, hPx, hkx, hcase⟩ := Buckets.remove (P := fun y => decide (y.tb = tb)) h hx₀
    (by simp [htb]) hfuel
  have hxtb : x.tb = tb := by simpa using hPx
  rcases hcase with ⟨hfind, h'⟩ | ⟨y, -, -, hfind, h'⟩
  · -- the first link of `tb` is the head: the head moves past it
    exact ⟨x, _, s.pageLink, hx, hxtb, hkx, by simp [tbPageRemove, hfind]; rfl, h'⟩
  · -- the link `y` before it is pointed past it
    exact ⟨x, s.firstTb, _, hx, hxtb, hkx,
      by simp [tbPageRemove, hfind, TbState.setTb_pageNext]; rfl, h'⟩

theorem fin_two_eq_or_eq {a b : Fin 2} (hab : a ≠ b) (c : Fin 2) : c = a ∨ c = b := by
  revert a b c
  decide

/-- Once two different links of `tb` are out, no link of `tb` is left. -/
theorem onPage_erase_iff (x₁ x₂ : PagePtr) (h₁ : x₁.tb = tb) (h₂ : x₂.tb = tb) (h₁₂ : x₂ ≠ x₁)
    (y : PagePtr) : (s.OnPage L y ∧ y ≠ x₁) ∧ y ≠ x₂ ↔ s.OnPage (L.erase tb) y := by
  have hn : x₁.n ≠ x₂.n := by
    intro hn
    apply h₁₂
    cases x₁
    cases x₂
    simp_all
  constructor
  · rintro ⟨⟨⟨hyL, hy⟩, hy₁⟩, hy₂⟩
    refine ⟨Finset.mem_erase.mpr ⟨?_, hyL⟩, hy⟩
    intro hytb
    obtain ⟨t, n⟩ := y
    rcases fin_two_eq_or_eq hn n with rfl | rfl
    · exact hy₁ (by cases x₁; simp_all)
    · exact hy₂ (by cases x₂; simp_all)
  · rintro ⟨hyL, hy⟩
    obtain ⟨hytb, hyL⟩ := Finset.mem_erase.mp hyL
    refine ⟨⟨⟨hyL, hy⟩, ?_⟩, ?_⟩
    · rintro rfl
      exact hytb h₁
    · rintro rfl
      exact hytb h₂

/-- The page lists part of `tb_phys_invalidate(tb, -1)`, called with the
fields `t` of `tb`: `tb` leaves the list of each of its pages. -/
theorem PageStruct.unlink (h : PageStruct s L) (htb : tb ∈ L) {t : TranslationBlock}
    (ht : t.pageAddr = (s.tbs tb).pageAddr) (h0 : (s.tbs tb).pageAddr 0 ≠ tbPageAddrNone)
    {fuel : ℕ} (hfuel : 2 * L.card ≤ fuel) :
    ∃ ft pl, tbPageUnlink fuel s t tb tbPageAddrNone = some (s.withPages ft pl) ∧
      PageStruct (s.withPages ft pl) (L.erase tb) := by
  have hfuel' : ∀ (N : PagePtr → Prop), (∀ x, N x → s.OnPage L x) →
      ∀ l : List PagePtr, l.Nodup → (∀ x ∈ l, N x) → l.length ≤ fuel :=
    fun N hN l hnd hl => (length_le_of_pagePtrs hnd fun x hx => (hN x (hl x hx)).1).trans hfuel
  -- the first removal, from the list of the first page, takes one link `x₁` of `tb`
  obtain ⟨x₁, ft₁, pl₁, hx₁, hx₁tb, hk₁, hrem₁, h₁⟩ :=
    tbPageRemove_spec h (show s.OnPage L ⟨tb, 0⟩ from ⟨htb, h0⟩) rfl (hfuel' _ fun _ hx => hx)
  have hrem₁' : tbPageRemove fuel s ((s.tbs tb).pageAddr 0 >>> TARGET_PAGE_BITS) tb =
      some (s.withPages ft₁ pl₁) := hrem₁
  by_cases h1 : (s.tbs tb).pageAddr 1 = tbPageAddrNone
  · -- one page: `x₁` is the link of the first page, and no other link of `tb` is on a list
    refine ⟨ft₁, pl₁, by simp [tbPageUnlink, ht, h0, h1, hrem₁'], ?_⟩
    have hx₁0 : x₁ = ⟨tb, 0⟩ := by
      obtain ⟨t, n⟩ := x₁
      simp only at hx₁tb
      subst hx₁tb
      rcases fin_two_eq_or_eq (show (0 : Fin 2) ≠ 1 by decide) n with rfl | rfl
      · rfl
      · exact absurd h1 hx₁.2
    have hN : (fun y => s.OnPage L y ∧ y ≠ x₁) = s.OnPage (L.erase tb) := by
      funext y
      rw [← onPage_erase_iff x₁ ⟨tb, 1⟩ hx₁tb rfl (by rw [hx₁0]; simp) y, eq_iff_iff]
      refine (and_iff_left_of_imp ?_).symm
      rintro ⟨hy, -⟩ rfl
      exact hy.2 h1
    rw [hN] at h₁
    exact h₁
  · -- two pages: the other link of `tb` is on the list of the second page
    obtain ⟨x₀, hx₀, hx₀tb, hk₀⟩ : ∃ x₀, (s.OnPage L x₀ ∧ x₀ ≠ x₁) ∧ x₀.tb = tb ∧
        s.pageOf x₀ = (s.tbs tb).pageAddr 1 >>> TARGET_PAGE_BITS := by
      obtain ⟨t, n⟩ := x₁
      simp only at hx₁tb
      subst hx₁tb
      rcases fin_two_eq_or_eq (show (0 : Fin 2) ≠ 1 by decide) n with rfl | rfl
      · exact ⟨⟨t, 1⟩, ⟨⟨htb, h1⟩, by simp⟩, rfl, rfl⟩
      · exact ⟨⟨t, 0⟩, ⟨⟨htb, h0⟩, by simp⟩, rfl, hk₁.symm⟩
    obtain ⟨x₂, ft₂, pl₂, hx₂, hx₂tb, -, hrem₂, h₂⟩ :=
      tbPageRemove_spec (s := s.withPages ft₁ pl₁) h₁ hx₀ hx₀tb
        (hfuel' _ fun _ hx => hx.1)
    have hrem₂' : tbPageRemove fuel (s.withPages ft₁ pl₁)
        ((s.tbs tb).pageAddr 1 >>> TARGET_PAGE_BITS) tb = some (s.withPages ft₂ pl₂) := by
      rw [← hk₀]
      exact hrem₂
    refine ⟨ft₂, pl₂, by simp [tbPageUnlink, ht, h0, h1, hrem₁', hrem₂'], ?_⟩
    have hN : (fun y => (s.OnPage L y ∧ y ≠ x₁) ∧ y ≠ x₂) = s.OnPage (L.erase tb) := by
      funext y
      rw [onPage_erase_iff x₁ x₂ hx₁tb hx₂tb hx₂.2 y]
    rw [hN] at h₂
    exact h₂

end Pages

/-! ## The jump lists -/

/-- The jump slots `l` as links of a jump list. -/
def slotPtrs (l : List (ℕ × Fin 2)) : List JmpPtr := l.map fun x => .slot x.1 x.2

/-- `c` with slot `n` of `t` chained to `v`, or to nothing. -/
def setChain (c : ℕ → Fin 2 → Option ℕ) (t : ℕ) (n : Fin 2) (v : Option ℕ) :
    ℕ → Fin 2 → Option ℕ :=
  update c t (update (c t) n v)

section SlotPtrs

variable {l : List (ℕ × Fin 2)} {t : ℕ} {n : Fin 2}

@[simp] theorem slotPtrs_nil : slotPtrs [] = [] := rfl
@[simp] theorem slotPtrs_cons (x : ℕ × Fin 2) : slotPtrs (x :: l) = .slot x.1 x.2 :: slotPtrs l := rfl
@[simp] theorem slotPtrs_append (l' : List (ℕ × Fin 2)) :
    slotPtrs (l ++ l') = slotPtrs l ++ slotPtrs l' := List.map_append

@[simp] theorem slot_mem_slotPtrs : JmpPtr.slot t n ∈ slotPtrs l ↔ (t, n) ∈ l := by
  simp [slotPtrs]

@[simp] theorem first_not_mem_slotPtrs : JmpPtr.first t ∉ slotPtrs l := by
  simp [slotPtrs]

theorem nodup_slotPtrs : (slotPtrs l).Nodup ↔ l.Nodup := by
  refine List.nodup_map_iff ?_
  rintro ⟨t, n⟩ ⟨t', n'⟩ h
  cases h
  rfl

theorem setChain_apply {c : ℕ → Fin 2 → Option ℕ} {v : Option ℕ} (t' : ℕ) (m : Fin 2) :
    setChain c t n v t' m = if t' = t ∧ m = n then v else c t' m := by
  by_cases ht : t' = t
  · subst ht
    by_cases hm : m = n
    · subst hm
      simp [setChain]
    · simp [setChain, hm]
  · simp [setChain, ht]

end SlotPtrs

/-- The jump lists, relative to the slots chained to each TB (`c t n = some u`:
the jump of slot `n` of `t` goes to `u`): for every TB `u` of `L`, the
circular list from its `jmp_first` returns to `u` tagged 2 after the slots
chained to `u`, once each; a slot's `jmp_next` is `NULL` exactly when it is
not chained; and only TBs of `L` chain or are chained to. -/
structure JmpStruct (s : TbState) (L : Finset ℕ) (c : ℕ → Fin 2 → Option ℕ) : Prop where
  list : ∀ u ∈ L, ∃ l, IsSeg s.jmpLink (s.jmpLink (.first u)) (slotPtrs l) (some (.first u)) ∧
    l.Nodup ∧ ∀ x, x ∈ l ↔ c x.1 x.2 = some u
  next : ∀ t ∈ L, ∀ n, (s.tbs t).jmpNext n = none ↔ c t n = none
  live : ∀ t n u, c t n = some u → t ∈ L ∧ u ∈ L

section Jumps

variable {s s' : TbState} {L : Finset ℕ} {c c' : ℕ → Fin 2 → Option ℕ}

theorem JmpStruct.length_le (h : JmpStruct s L c) {u : ℕ} {l : List (ℕ × Fin 2)} (hnd : l.Nodup)
    (hmem : ∀ x, x ∈ l ↔ c x.1 x.2 = some u) : l.length ≤ 2 * L.card :=
  length_le_of_slots hnd fun x hx => (h.live x.1 x.2 u ((hmem x).mp hx)).1

/-- The frame rule with the list of `v` replaced: the slots chained or
unchained are those of `v`'s list, the links that change are `v`'s
`jmp_first` and those of such slots, and an unchained slot's `jmp_next` is
`NULL`. -/
theorem JmpStruct.replace (h : JmpStruct s L c) (v : ℕ) (l₀ : List (ℕ × Fin 2))
    (hc : ∀ t m, c' t m ≠ c t m → (c t m = some v ∧ c' t m = none) ∨ (c t m = none ∧ c' t m = some v))
    (hlive : ∀ t m u, c' t m = some u → t ∈ L ∧ u ∈ L)
    (hl : ∀ q, s'.jmpLink q ≠ s.jmpLink q →
      q = .first v ∨ ∃ t m, q = .slot t m ∧ (c t m = some v ∨ c' t m = some v))
    (hnext : ∀ t m, c t m = some v → c' t m = none → s'.jmpLink (.slot t m) = none)
    (hseg : IsSeg s'.jmpLink (s'.jmpLink (.first v)) (slotPtrs l₀) (some (.first v)))
    (hnd : l₀.Nodup) (hmem : ∀ x, x ∈ l₀ ↔ c' x.1 x.2 = some v) : JmpStruct s' L c' := by
  -- a slot that is not on `v`'s list before or after keeps its chain and its link
  have hkeep : ∀ t m, c t m ≠ some v → c' t m ≠ some v →
      c' t m = c t m ∧ s'.jmpLink (.slot t m) = s.jmpLink (.slot t m) := by
    intro t m hv hv'
    refine ⟨by_contra fun hne => ?_, by_contra fun hne => ?_⟩
    · rcases hc t m hne with ⟨h₁, -⟩ | ⟨-, h₂⟩
      · exact hv h₁
      · exact hv' h₂
    · rcases hl _ hne with hq | ⟨t', m', hq, hq'⟩
      · cases hq
      · cases hq
        exact hq'.elim hv hv'
  refine ⟨fun u hu => ?_, fun t ht m => ?_, hlive⟩
  · by_cases huv : u = v
    · subst huv
      exact ⟨l₀, hseg, hnd, hmem⟩
    obtain ⟨l, hsegu, hndu, hmemu⟩ := h.list u hu
    have hslot : ∀ x : ℕ × Fin 2, c x.1 x.2 = some u → c' x.1 x.2 = some u ∧
        s'.jmpLink (.slot x.1 x.2) = s.jmpLink (.slot x.1 x.2) := by
      intro x hx
      have hv : c x.1 x.2 ≠ some v := by
        rw [hx]
        exact fun h' => huv (Option.some.inj h')
      have hv' : c' x.1 x.2 ≠ some v := by
        intro h'
        rcases hc x.1 x.2 (by rw [h', hx]; exact fun h'' => huv (Option.some.inj h'').symm) with
          ⟨h₁, -⟩ | ⟨h₁, -⟩ <;> simp_all
      obtain ⟨hc', hl'⟩ := hkeep x.1 x.2 hv hv'
      exact ⟨hc'.trans hx, hl'⟩
    have hfirst : s'.jmpLink (.first u) = s.jmpLink (.first u) := by
      by_contra hne
      rcases hl _ hne with hq | ⟨t', m', hq, -⟩
      · exact huv (JmpPtr.first.inj hq)
      · cases hq
    refine ⟨l, ?_, hndu, fun x => ?_⟩
    · rw [hfirst]
      refine hsegu.congr fun q hq => ?_
      obtain ⟨x, hx, rfl⟩ := List.mem_map.mp hq
      exact (hslot x ((hmemu x).mp hx)).2
    · rw [hmemu x]
      constructor
      · exact fun hx => (hslot x hx).1
      · intro hx
        by_contra hne
        rcases hc x.1 x.2 (by rw [hx]; exact Ne.symm hne) with ⟨-, h₂⟩ | ⟨-, h₂⟩ <;> simp_all
  · by_cases hv : c t m = some v
    · by_cases hv' : c' t m = some v
      · -- still on `v`'s list: the link is that of a node of the list
        have hne : s'.jmpLink (.slot t m) ≠ none :=
          hseg.next_ne_none (slot_mem_slotPtrs.mpr ((hmem (t, m)).mpr hv'))
        simp only [TbState.jmpLink] at hne
        simp [hne, hv']
      · -- taken off `v`'s list
        have hnone : c' t m = none := by
          rcases hc t m (by rw [hv]; exact hv') with ⟨-, h₂⟩ | ⟨h₁, -⟩
          · exact h₂
          · simp_all
        have hl' := hnext t m hv hnone
        simp only [TbState.jmpLink] at hl'
        simp [hl', hnone]
    · by_cases hv' : c' t m = some v
      · have hne : s'.jmpLink (.slot t m) ≠ none :=
          hseg.next_ne_none (slot_mem_slotPtrs.mpr ((hmem (t, m)).mpr hv'))
        simp only [TbState.jmpLink] at hne
        simp [hne, hv']
      · obtain ⟨hc', hl'⟩ := hkeep t m hv hv'
        simp only [TbState.jmpLink] at hl'
        rw [hl', hc']
        exact h.next t ht m

/-- A TB that no slot chains to and whose slots are not chained leaves the
set. -/
theorem JmpStruct.erase (h : JmpStruct s L c) {tb : ℕ} (hfrom : ∀ m, c tb m = none)
    (hto : ∀ t m, c t m ≠ some tb) : JmpStruct s (L.erase tb) c := by
  refine ⟨fun u hu => h.list u (Finset.mem_of_mem_erase hu), fun t ht => h.next t
    (Finset.mem_of_mem_erase ht), fun t m u hu => ?_⟩
  obtain ⟨htL, huL⟩ := h.live t m u hu
  have htb : t ≠ tb := by
    rintro rfl
    simp [hfrom m] at hu
  have hutb : u ≠ tb := by
    rintro rfl
    exact hto t m hu
  exact ⟨Finset.mem_erase.mpr ⟨htb, htL⟩, Finset.mem_erase.mpr ⟨hutb, huL⟩⟩

/-- A new TB, with an empty list of jumps to it and no slot chained. -/
theorem JmpStruct.insert (h : JmpStruct s L c) {tb : ℕ} (htb : tb ∉ L)
    (hl : ∀ q : JmpPtr, q.tb ≠ tb → s'.jmpLink q = s.jmpLink q)
    (hfirst : s'.jmpLink (.first tb) = some (.first tb)) (hnext : ∀ m, (s'.tbs tb).jmpNext m = none) :
    JmpStruct s' (insert tb L) c := by
  have hfrom : ∀ m, c tb m = none := fun m => by
    by_contra hne
    obtain ⟨u, hu⟩ := Option.ne_none_iff_exists'.mp hne
    exact htb (h.live tb m u hu).1
  have hto : ∀ t m, c t m ≠ some tb := fun t m hc => htb (h.live t m tb hc).2
  refine ⟨fun u hu => ?_, fun t ht m => ?_, fun t m u hu => ?_⟩
  · rcases Finset.mem_insert.mp hu with rfl | huL
    · exact ⟨[], by simp [hfirst], List.nodup_nil, fun x => by simp [hto x.1 x.2]⟩
    obtain ⟨l, hseg, hnd, hmem⟩ := h.list u huL
    have hutb : u ≠ tb := by
      rintro rfl
      exact htb huL
    refine ⟨l, ?_, hnd, hmem⟩
    rw [hl (.first u) hutb]
    refine hseg.congr fun q hq => hl q ?_
    obtain ⟨x, hx, rfl⟩ := List.mem_map.mp hq
    rintro rfl
    exact htb (h.live _ _ u ((hmem x).mp hx)).1
  · rcases Finset.mem_insert.mp ht with rfl | htL
    · simp [hnext m, hfrom m]
    · have htb' : t ≠ tb := by
        rintro rfl
        exact htb htL
      have hl' := hl (.slot t m) htb'
      simp only [TbState.jmpLink] at hl'
      rw [hl']
      exact h.next t htL m
  · obtain ⟨htL, huL⟩ := h.live t m u hu
    exact ⟨Finset.mem_insert_of_mem htL, Finset.mem_insert_of_mem huL⟩

/-- `tb_add_jump` on a slot that is not chained: the slot goes to the head
of the list of `tbNext`. -/
theorem JmpStruct.push (h : JmpStruct s L c) {tb tbNext : ℕ} {n : Fin 2} (htb : tb ∈ L)
    (hnx : tbNext ∈ L) (hc : c tb n = none) :
    JmpStruct (tbAddJump s tb n tbNext) L (setChain c tb n (some tbNext)) := by
  have hnone : (s.tbs tb).jmpNext n = none := (h.next tb htb n).mpr hc
  -- the two stores: `tb->jmp_next[n]` and `tb_next->jmp_first`
  have hlink : (tbAddJump s tb n tbNext).jmpLink = update (update s.jmpLink (.slot tb n)
      (some (s.tbs tbNext).jmpFirst)) (.first tbNext) (some (.slot tb n)) := by
    rw [tbAddJump, if_pos hnone]
    show (TbState.writeJmp (s.setTb tb _) (.first tbNext) (.slot tb n)).jmpLink = _
    rw [TbState.jmpLink_writeJmp, TbState.jmpLink_setTb_eq { s.tbs tb with
      jmpNext := update (s.tbs tb).jmpNext n (some (s.tbs tbNext).jmpFirst) } ?_ ?_]
    rotate_left
    · rfl
    · rfl
    show update (s.writeJmp (.slot tb n) (s.tbs tbNext).jmpFirst).jmpLink _ _ = _
    rw [TbState.jmpLink_writeJmp]
  obtain ⟨l, hseg, hnd, hmem⟩ := h.list tbNext hnx
  have hnotin : (tb, n) ∉ l := fun hx => by simp [(hmem _).mp hx] at hc
  have hne : ∀ q ∈ slotPtrs l, q ≠ .slot tb n := by
    intro q hq
    rintro rfl
    exact hnotin (slot_mem_slotPtrs.mp hq)
  refine h.replace tbNext ((tb, n) :: l) (fun t m hne' => ?_) (fun t m u hu => ?_) (fun q hq => ?_)
    (fun t m hcv hc' => ?_) ?_ (List.nodup_cons.mpr ⟨hnotin, hnd⟩) fun x => ?_
  · rw [setChain_apply] at hne' ⊢
    split_ifs at hne' ⊢ with hx
    · obtain ⟨rfl, rfl⟩ := hx
      exact .inr ⟨hc, rfl⟩
    · exact absurd rfl hne'
  · rw [setChain_apply] at hu
    split_ifs at hu with hx
    · obtain ⟨rfl, rfl⟩ := hx
      cases hu
      exact ⟨htb, hnx⟩
    · exact h.live t m u hu
  · -- only `tb_next->jmp_first` and the slot changed
    rw [hlink] at hq
    by_cases hq₁ : q = .first tbNext
    · exact .inl hq₁
    by_cases hq₂ : q = .slot tb n
    · exact .inr ⟨tb, n, hq₂, .inr (by simp [setChain_apply])⟩
    simp [update_of_ne hq₁, update_of_ne hq₂] at hq
  · by_cases hx : t = tb ∧ m = n
    · obtain ⟨rfl, rfl⟩ := hx
      rw [hc] at hcv
      cases hcv
    · rw [setChain_apply, if_neg hx] at hc'
      rw [hc'] at hcv
      cases hcv
  · -- the list of `tb_next` now starts with the slot
    rw [hlink, update_self]
    refine ⟨rfl, ?_⟩
    rw [update_of_ne (by simp), update_self]
    refine hseg.congr fun q hq => ?_
    rw [update_of_ne ?_, update_of_ne (hne q hq)]
    obtain ⟨x, -, rfl⟩ := List.mem_map.mp hq
    simp
  · rw [List.mem_cons, hmem x, setChain_apply]
    by_cases hx : x = (tb, n)
    · subst hx
      simp [hc]
    · have hx' : ¬(x.1 = tb ∧ x.2 = n) := fun h' => hx (Prod.ext h'.1 h'.2)
      simp [hx, hx']

/-- The link to slot `n` of `tb` in the list of the TB `v` it is chained
to is `v`'s `jmp_first` when the slot comes first, or the slot before it.
`tb_jmp_remove`'s search from the slot round its list and
`tb_reset_jump_recursive2`'s search from `v` both find it, the search for
the head of the list from the slot finds `v`, and pointing that link past
the slot and clearing the slot's `jmp_next` unchains it. -/
theorem JmpStruct.unlink (h : JmpStruct s L c) {tb v : ℕ} {n : Fin 2} (hc : c tb n = some v)
    {walk : ℕ} (hwalk : 2 * L.card < walk) :
    ∃ ℓ p, (s.tbs tb).jmpNext n = some p ∧
      findLink s.jmpLink (· = .slot tb n) id walk (.slot tb n) (some p) = some (ℓ, .slot tb n) ∧
      findLink s.jmpLink (· = .slot tb n) id walk (.first v) (some (s.tbs v).jmpFirst) =
        some (ℓ, .slot tb n) ∧
      findNode s.jmpLink JmpPtr.isFirst walk (some p) = some (.first v) ∧
      JmpStruct ((s.writeJmp ℓ p).clearJmpNext tb n) L (setChain c tb n none) := by
  obtain ⟨htbL, hvL⟩ := h.live tb n v hc
  obtain ⟨l, hseg, hnd, hmem⟩ := h.list v hvL
  have hlen := h.length_le hnd hmem
  obtain ⟨l₁, l₂, rfl⟩ := List.append_of_mem ((hmem (tb, n)).mpr hc)
  obtain ⟨p, hp⟩ : ∃ p, (s.tbs tb).jmpNext n = some p :=
    Option.ne_none_iff_exists'.mp fun h' => by simp [(h.next tb htbL n).mp h'] at hc
  have hp' : s.jmpLink (.slot tb n) = some p := hp
  -- the list of `v` as a circular list through `v` tagged 2
  have hcyc : IsSeg s.jmpLink (s.jmpLink (.first v)) (slotPtrs l₁ ++ .slot tb n :: slotPtrs l₂)
      (some (.first v)) := by simpa using hseg
  have hndc : (JmpPtr.first v :: (slotPtrs l₁ ++ .slot tb n :: slotPtrs l₂)).Nodup := by
    refine List.nodup_cons.mpr ⟨by simp, ?_⟩
    simpa using nodup_slotPtrs.mpr hnd
  have hlen' : (slotPtrs l₁).length + (slotPtrs l₂).length + 1 < walk := by
    simp only [slotPtrs, List.length_map]
    simp only [List.length_append, List.length_cons] at hlen
    omega
  have hne₁ : ∀ q ∈ slotPtrs l₁, decide (q = .slot tb n) = false := by
    intro q hq
    rw [decide_eq_false_iff_not]
    rintro rfl
    exact (List.nodup_middle.mp hnd |> List.nodup_cons.mp).1 (by simp [slot_mem_slotPtrs.mp hq])
  set ℓ := (slotPtrs l₁).getLast?.getD (.first v) with hℓ
  refine ⟨ℓ, p, hp, ?_, ?_, ?_, ?_⟩
  · rw [← hp']
    exact findLink_cycle_self hcyc hndc hlen'
  · have hfind : findLink s.jmpLink (· = .slot tb n) id walk (.first v) (s.jmpLink (.first v)) =
        some (((slotPtrs l₁).getLast?.map id).getD (.first v), .slot tb n) :=
      findLink_of_isSeg hcyc (by simp) hne₁ (by omega)
    rw [Option.map_id] at hfind
    exact hfind
  · rw [← hp']
    refine findNode_of_isSeg hcyc.rotate rfl (fun q hq => ?_) (by omega)
    obtain ⟨x, -, rfl⟩ := List.mem_map.mp hq
    rfl
  · -- the slot leaves the list of `v`
    have hlink : ((s.writeJmp ℓ p).clearJmpNext tb n).jmpLink =
        update (update s.jmpLink ℓ (some p)) (.slot tb n) none := by
      rw [TbState.jmpLink_clearJmpNext, TbState.jmpLink_writeJmp]
    have hℓ' : ℓ = .first v ∨ ∃ t m, ℓ = .slot t m ∧ (t, m) ∈ l₁ := by
      rcases List.eq_nil_or_concat' l₁ with rfl | ⟨l₀, y, rfl⟩
      · exact .inl rfl
      · exact .inr ⟨y.1, y.2, by simp [hℓ], by simp⟩
    have hnd₁₂ := List.nodup_cons.mp (List.nodup_middle.mp hnd)
    refine h.replace v (l₁ ++ l₂) (fun t m hne' => ?_) (fun t m u hu => ?_) (fun q hq => ?_)
      (fun t m hcv hc' => ?_) ?_ hnd₁₂.2 fun x => ?_
    · by_cases hx : t = tb ∧ m = n
      · obtain ⟨rfl, rfl⟩ := hx
        exact .inl ⟨hc, by simp [setChain_apply]⟩
      · rw [setChain_apply, if_neg hx] at hne'
        exact absurd rfl hne'
    · by_cases hx : t = tb ∧ m = n
      · rw [setChain_apply, if_pos hx] at hu
        cases hu
      · rw [setChain_apply, if_neg hx] at hu
        exact h.live t m u hu
    · -- the links that change are the slot's and the one that pointed at it
      rw [hlink] at hq
      by_cases hq₂ : q = .slot tb n
      · exact .inr ⟨tb, n, hq₂, .inl hc⟩
      by_cases hq₁ : q = ℓ
      · rcases hℓ' with h₁ | ⟨t, m, h₁, hx⟩
        · exact .inl (hq₁.trans h₁)
        · exact .inr ⟨t, m, hq₁.trans h₁, .inl ((hmem (t, m)).mp (by simp [hx]))⟩
      · simp [update_of_ne hq₂, update_of_ne hq₁] at hq
    · by_cases hx : t = tb ∧ m = n
      · obtain ⟨rfl, rfl⟩ := hx
        rw [hlink, update_self]
      · rw [setChain_apply, if_neg hx] at hc'
        rw [hc'] at hcv
        cases hcv
    · have h₁ := hcyc.unlink_cycle hndc
      rw [← hℓ, hp'] at h₁
      rw [hlink, update_of_ne (show JmpPtr.first v ≠ .slot tb n by simp), slotPtrs_append]
      refine h₁.congr fun q hq => update_of_ne ?_ _ _
      rintro rfl
      exact hnd₁₂.1 (by simpa using hq)
    · rw [setChain_apply]
      by_cases hx : x.1 = tb ∧ x.2 = n
      · have hx' : x = (tb, n) := Prod.ext hx.1 hx.2
        subst hx'
        simp [hnd₁₂.1]
      · have hx' : x ≠ (tb, n) := fun h' => hx ⟨congrArg Prod.fst h', congrArg Prod.snd h'⟩
        rw [if_neg hx, ← hmem x]
        simp [hx']

/-- A state with the same jump links keeps the jump lists. -/
theorem JmpStruct.of_jmpLink_eq (h : JmpStruct s L c) (he : s'.jmpLink = s.jmpLink) :
    JmpStruct s' L c := by
  refine ⟨fun u hu => ?_, fun t ht m => ?_, h.live⟩
  · rw [he]
    exact h.list u hu
  · have hl := congrFun he (.slot t m)
    simp only [TbState.jmpLink] at hl
    rw [hl]
    exact h.next t ht m

theorem setChain_of_eq {tb : ℕ} {n : Fin 2} {v : Option ℕ} (hc : c tb n = v) : setChain c tb n v = c := by
  funext t m
  rw [setChain_apply]
  split_ifs with h'
  · rw [h'.1, h'.2, hc]
  · rfl

/-- `tb_jmp_remove` on a slot of a TB in use: the slot leaves the list it
is in, if any, and no jump is patched. -/
theorem JmpStruct.remove (h : JmpStruct s L c) {tb : ℕ} (htb : tb ∈ L) (n : Fin 2) {fuel : ℕ}
    (hfuel : 2 * L.card < fuel) :
    ∃ s', tbJmpRemove fuel s tb n = some s' ∧ TbState.JumpsOnly s s' ∧
      (∀ u, (s'.tbs u).jmpTarget = (s.tbs u).jmpTarget) ∧ JmpStruct s' L (setChain c tb n none) := by
  cases hc : c tb n with
  | none =>
    -- not chained: `jmp_next[n]` is `NULL` and nothing changes
    have hnone : (s.tbs tb).jmpNext n = none := (h.next tb htb n).mpr hc
    refine ⟨s, by simp [tbJmpRemove, hnone], TbState.JumpsOnly.refl, fun _ => rfl, ?_⟩
    rw [setChain_of_eq hc]
    exact h
  | some v =>
    obtain ⟨ℓ, p, hp, hfind, -, -, h'⟩ := h.unlink hc hfuel
    refine ⟨(s.writeJmp ℓ p).clearJmpNext tb n, by simp [tbJmpRemove, hp, hfind]; rfl,
      (TbState.JumpsOnly.writeJmp ℓ p).trans (TbState.JumpsOnly.setTb tb _ rfl), fun u => ?_, h'⟩
    rw [TbState.jmpTarget_clearJmpNext, TbState.jmpTarget_writeJmp]

/-- Every slot of `l` reset and unchained: what the last loop of
`tb_phys_invalidate` leaves after the list `l`. -/
def TbState.resetSlots (s : TbState) (l : List (ℕ × Fin 2)) : TbState :=
  s.withJumps (fun t m => if (t, m) ∈ l then none else (s.tbs t).jmpNext m)
    (fun t => (s.tbs t).jmpFirst)
    (fun t m => if (t, m) ∈ l then (s.tbs t).tcPtr + (s.tbs t).tbNextOffset m else (s.tbs t).jmpTarget m)

theorem TbState.resetSlots_nil : s.resetSlots [] = s := by
  simp [resetSlots, withJumps]

theorem TbState.resetSlots_cons {l : List (ℕ × Fin 2)} (t : ℕ) (n : Fin 2) :
    ((tbResetJump s t n).clearJmpNext t n).resetSlots l = s.resetSlots ((t, n) :: l) := by
  unfold resetSlots withJumps clearJmpNext tbResetJump setTb
  congr 1
  funext u
  by_cases hu : u = t
  · subst hu
    simp only [update_self, List.mem_cons, Prod.mk.injEq, true_and, TranslationBlock.mk.injEq]
    refine ⟨?_, ?_, trivial⟩ <;> funext m <;> by_cases hm : m = n
    · subst hm
      simp
    · simp [hm]
    · subst hm
      simp
    · simp [hm]
  · simp [hu]

/-- The last loop of `tb_phys_invalidate`, from the head of a list of
jumps to `tb`, resets and unchains every slot of the list. -/
theorem tbResetJumps_spec {s : TbState} {l : List (ℕ × Fin 2)} {tb : ℕ} {q : JmpPtr} {fuel : ℕ}
    (hseg : IsSeg s.jmpLink (some q) (slotPtrs l) (some (.first tb))) (hnd : l.Nodup)
    (hfuel : l.length < fuel) : tbResetJumps fuel s q = some (s.resetSlots l) := by
  induction l generalizing s q fuel with
  | nil =>
    obtain ⟨f, rfl⟩ := Nat.exists_eq_add_of_lt hfuel
    cases hseg
    simp [tbResetJumps, TbState.resetSlots_nil]
  | cons x l ih =>
    obtain ⟨f, rfl⟩ : ∃ f, fuel = f + 1 := ⟨fuel - 1, by simp at hfuel; omega⟩
    obtain ⟨hq, hseg⟩ := hseg
    cases hq
    obtain ⟨q', hq'⟩ := Option.ne_none_iff_exists'.mp hseg.ne_none
    have hx : x ∉ l := (List.nodup_cons.mp hnd).1
    -- the rest of the list, after the slot is reset and unchained
    have hrest : IsSeg ((tbResetJump s x.1 x.2).clearJmpNext x.1 x.2).jmpLink (some q') (slotPtrs l)
        (some (.first tb)) := by
      rw [TbState.jmpLink_clearJmpNext, TbState.jmpLink_tbResetJump, ← hq']
      refine hseg.congr fun r hr => update_of_ne ?_ _ _
      rintro rfl
      exact hx (slot_mem_slotPtrs.mp hr)
    have hnext : (s.tbs x.1).jmpNext x.2 = some q' := hq'
    rw [← TbState.resetSlots_cons, ← ih hrest (List.nodup_cons.mp hnd).2 (by simp at hfuel; omega)]
    simp only [tbResetJumps, hnext]
    rfl

end Jumps

end QemuKvm.Exec
