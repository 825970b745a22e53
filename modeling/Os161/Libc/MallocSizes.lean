import Os161.Libc.MallocSafety

/-!
# Requests of every size

`malloc` rounds the size up and adds the size of the header, in 32-bit arithmetic, and hands the sum
to `sbrk`, whose argument is an `int`. This module looks at all sizes, with an `sbrk` that reads its
argument as a signed number: it fails, or it moves the break by that many bytes, up or down.

There are three ranges of sizes with which `malloc` goes wrong. A size in the last seven is rounded
up to zero, and the block that is returned has room for the header only. A size of eight less makes
the sum zero, and the block is put above the heap. From half the address space on, the sum is a
negative number for `sbrk`, which moves the break down, and again the block is above the heap. All
of this happens only when there is no free block that is large enough.
-/

namespace Os161.Malloc

open Prog Tiling

/-! ## `sbrk` with a signed argument -/

/-- `sbrk`: `none` is the result `(void *)-1`. The break stays a 32-bit address. -/
def sbrkSigned (amount : ℕ) : HeapM (Option ℕ) := do
  let s ← get
  modify fun s => { s with nomem := s.nomem.tail }
  if s.nomem.headD false = true ∨ ¬ (0 ≤ (s.brk : ℤ) + s32 amount ∧
      (s.brk : ℤ) + s32 amount < 4294967296) then
    return none
  else
    modify fun s => { s with brk := ((s.brk : ℤ) + s32 amount).toNat }
    return some s.brk

/-- `__malloc_sbrk`. The new top is computed in 32 bits. -/
def mallocSbrkSigned (size : ℕ) : HeapM (Option ℕ) := do
  match ← sbrkSigned size with
  | none => return none
  | some x =>
    let s ← get
    require (x = s.heaptop)
      "malloc: Internal error - heap top moved itself from 0x%lx to 0x%lx"
    modify fun s => { s with heaptop := u32 ((s.heaptop + size : ℕ) : ℤ) }
    return some x

/-- The part of `malloc` that expands the heap. -/
def mallocExpandSigned (size rightprevblock : ℕ) : HeapM ℕ := do
  match ← mallocSbrkSigned (u32 (size + mblocksize)) with
  | none => return 0
  | some mh =>
    initTop mh rightprevblock (mMkfield (u32 (size + mblocksize)))
    return mData mh

/-- The part of `malloc` after the setup. -/
def mallocSearchSigned (size : ℕ) : HeapM ℕ := do
  let s ← get
  require (¬ localDataCorrupt s) "malloc: heapbase 0x%lx; heaptop 0x%lx"
  match ← findFit size (s.heaptop - s.heapbase + 1) s.heapbase 0 with
  | .inl mh =>
    mallocSplit mh size
    setInuse mh 1
    return mData mh
  | .inr (i, rightprevblock) =>
    require (i = s.heaptop) "malloc: Heap corrupt; ran off end"
    mallocExpandSigned size rightprevblock

/-- `malloc` over this `sbrk`. The calls of `sbrk` in `__malloc_init` ask for less than a block,
which is the same number with and without sign. -/
def mallocSigned (size : ℕ) : HeapM ℕ := do
  let s ← get
  if s.heapbase = 0 then
    mallocInit
  mallocSearchSigned (roundUp size)

/-! ## Small requests -/

variable {s : Uheap} {live : List UBlock} {bs : List Block}

/-- For an amount that is not negative as a signed number, the sign makes no difference. -/
theorem sbrkSigned_eq {amount : ℕ} (h : amount < 2147483648) : sbrkSigned amount = sbrk amount := by
  have hamount : s32 (amount : ℤ) = amount := s32_of_range (by omega) (by omega)
  funext s
  show (if _ then _ else _ : HeapM (Option ℕ)) _ = (if _ then _ else _ : HeapM (Option ℕ)) _
  rw [hamount]
  by_cases hfail : s.nomem.headD false = true ∨ s.brk + amount ≥ 4294967296
  · rw [if_pos hfail, if_pos (hfail.imp_right fun hge => by omega)]
  · rw [if_neg hfail, if_neg fun hbad => hfail (hbad.imp_right fun hge => by omega)]
    rfl

theorem mallocSbrkSigned_eq {size : ℕ} (h : size < 2147483648) :
    mallocSbrkSigned size = mallocSbrk size := by
  funext s
  simp only [mallocSbrkSigned, mallocSbrk, sbrkSigned_eq h, bind, Prog.bind]
  have hspec := sbrk_spec (s := s) size
  cases hrun : sbrk size s with
  | ok res t =>
    cases res with
    | none => rfl
    | some x =>
      obtain ⟨rfl, hlt, rfl⟩ := hspec.of_ok hrun
      show (require (s.brk = s.heaptop) _ >>= fun _ => _) _ =
        (require (s.brk = s.heaptop) _ >>= fun _ => _) _
      by_cases htop : s.brk = s.heaptop
      · have hsum : u32 ((s.heaptop + size : ℕ) : ℤ) = s.heaptop + size := u32_of_lt (by omega)
        rw [require, if_pos htop]
        show Outcome.ok _ { s with heaptop := u32 _, brk := _, nomem := _ } = _
        rw [hsum]
        rfl
      · rw [require, if_neg htop]
        rfl
  | err e t => rfl
  | halted msg => rfl

theorem roundUp_mod (size : ℕ) : roundUp size % 8 = 0 := by
  unfold roundUp mblocksize
  omega

/-- Sizes below half the address space, less a header, are rounded up and handed on as they are. -/
theorem roundUp_small {size : ℕ} (h : size ≤ 2147483632) :
    roundUp size ≤ 2147483632 ∧ u32 (roundUp size + mblocksize) < 2147483648 := by
  have hround : roundUp size ≤ 2147483632 := by
    unfold roundUp mblocksize u32
    omega
  refine ⟨hround, ?_⟩
  unfold mblocksize u32
  omega

theorem mallocSigned_eq {size : ℕ} (h : size ≤ 2147483632) : mallocSigned size = malloc size := by
  have hexpand : mallocExpandSigned (roundUp size) = mallocExpand (roundUp size) := by
    funext prev
    rw [mallocExpandSigned, mallocSbrkSigned_eq (roundUp_small h).2]
    rfl
  rw [mallocSigned, mallocSearchSigned, hexpand]
  rfl

/-! ## All requests -/

/-- There is room for the break to move by `amount`. -/
def Movable (brk amount : ℕ) : Prop :=
  0 ≤ (brk : ℤ) + s32 amount ∧ (brk : ℤ) + s32 amount < 4294967296

theorem sbrkSigned_spec (amount : ℕ) :
    Meets (sbrkSigned amount) (fun res t => match res with
      | none => t = { s with nomem := s.nomem.tail } ∧ (s.nomem = [] → ¬ Movable s.brk amount)
      | some x => x = s.brk ∧ Movable s.brk amount ∧
          t = { s with brk := ((s.brk : ℤ) + s32 amount).toNat, nomem := s.nomem.tail })
      (fun _ _ => False) s := by
  simp only [sbrkSigned, meets_bind, meets_get, meets_modify, meets_ite, meets_pure]
  refine ⟨fun hfail => ⟨trivial, fun hnil => ?_⟩, fun hok => ?_⟩
  · rw [hnil] at hfail
    exact hfail.resolve_left (by decide)
  · rw [not_or, not_not] at hok
    exact ⟨trivial, hok.2, trivial⟩

/-- Filling in a header changes memory only. -/
theorem initTop_frame (mh rightprevblock nextblock : ℕ) :
    Meets (initTop mh rightprevblock nextblock) (fun _ t => ∃ mem, t = { s with mem := mem })
      (fun _ _ => False) s := by
  simp only [initTop, setPrevblock, setPad, setMagic1, setNextblock, setInuse, setMagic2, setField,
    store, meets_bind, meets_get, meets_modify]
  exact ⟨_, rfl⟩

/-- What expanding the heap does, for any size. -/
theorem mallocExpandSigned_spec (hs : Heap s bs) (size rightprevblock : ℕ) :
    Meets (mallocExpandSigned size rightprevblock)
      (fun res t => t.heapbase = s.heapbase ∧
        (res = 0 ∧ Heap t bs ∧ (s.nomem = [] → ¬ Movable s.brk (u32 (size + mblocksize))) ∨
          res = s.heaptop + 8 ∧ Movable s.brk (u32 (size + mblocksize)) ∧
            t.heaptop = u32 ((s.heaptop + u32 (size + mblocksize) : ℕ) : ℤ)))
      (fun _ _ => False) s := by
  simp only [mallocExpandSigned, mallocSbrkSigned, meets_bind]
  refine (sbrkSigned_spec _).imp ?_
  rintro (_ | x) t ht
  · obtain ⟨rfl, hroom⟩ := ht
    exact ⟨rfl, .inl ⟨rfl, { hs with }, hroom⟩⟩
  · obtain ⟨rfl, hroom, rfl⟩ := ht
    simp only [meets_bind, meets_get, meets_require, meets_modify, meets_pure]
    refine ⟨hs.brk, (initTop_frame _ _ _).imp ?_⟩
    rintro _ _ ⟨mem, rfl⟩
    refine ⟨rfl, .inr ⟨?_, hroom, rfl⟩⟩
    rw [mData, mblocksize, hs.brk]

/-- There is a free block of at least `size` bytes. -/
def HasFree (s : Uheap) (size : ℕ) : Prop :=
  ∃ bs, Heap s bs ∧ ∃ b ∈ bs, ¬ b.Used ∧ size + 8 ≤ b.len

/-- The headers in memory say which blocks are free and how long they are. -/
theorem exists_free_of_laid {mem : ℕ → ℕ} {a p size : ℕ} {bs bs' : List Block} (hl : Laid mem a p bs)
    (hl' : Laid mem a p bs') (hspan : span Block.len bs = span Block.len bs')
    (h : ∃ b ∈ bs, ¬ b.Used ∧ size + 8 ≤ b.len) : ∃ b ∈ bs', ¬ b.Used ∧ size + 8 ≤ b.len := by
  induction bs generalizing a p bs' with
  | nil =>
    obtain ⟨b, hb, -⟩ := h
    cases hb
  | cons c cs ih =>
    have hclen := c.header
    cases bs' with
    | nil =>
      simp only [span_cons, span_nil] at hspan
      omega
    | cons c' cs' =>
      obtain ⟨hc, hcs⟩ := hl
      obtain ⟨hc', hcs'⟩ := hl'
      have hlen : c'.len = c.len := hc'.next.symm.trans hc.next
      obtain ⟨b, hb, hfree, hsize⟩ := h
      rcases List.mem_cons.mp hb with rfl | hb
      · refine ⟨c', List.mem_cons_self, fun hused => hfree ?_, hsize.trans_eq hlen.symm⟩
        exact hc.inuse.mp (hc'.inuse.mpr hused)
      · rw [hlen] at hcs'
        simp only [span_cons, hlen, Nat.add_left_cancel_iff] at hspan
        obtain ⟨d, hd, hrest⟩ := ih hcs hcs' hspan ⟨b, hb, hfree, hsize⟩
        exact ⟨d, List.mem_cons_of_mem _ hd, hrest⟩

theorem HasFree.of_heap {size : ℕ} (h : HasFree s size) (hs : Heap s bs) :
    ∃ b ∈ bs, ¬ b.Used ∧ size + 8 ≤ b.len := by
  obtain ⟨bs', hs', hb⟩ := h
  have htop := hs.top
  have htop' := hs'.top
  exact exists_free_of_laid hs'.laid hs.laid (by omega) hb

/-- `malloc` on an existing heap, for any size: a free block is found, or `sbrk` fails, or the block
is put where the heap has ended. -/
theorem mallocSearchSigned_spec {size sz : ℕ} (hs : Heap s bs) (hsize : size % 8 = 0)
    (hsz : sz ≤ size) :
    Meets (mallocSearchSigned size)
      (fun res t => t.heapbase = s.heapbase ∧
        (HasFree s size ∧ res ≠ 0 ∧ (∃ bs', Heap t bs' ∧
            (owned s.heapbase bs').Perm (⟨res, sz⟩ :: owned s.heapbase bs)) ∨
          ¬ HasFree s size ∧ res = 0 ∧ Heap t bs ∧
            (s.nomem = [] → ¬ Movable s.brk (u32 (size + mblocksize))) ∨
          ¬ HasFree s size ∧ res = s.heaptop + 8 ∧ Movable s.brk (u32 (size + mblocksize)) ∧
            t.heaptop = u32 ((s.heaptop + u32 (size + mblocksize) : ℕ) : ℤ)))
      (fun _ _ => False) s := by
  have htop := hs.top
  have hbase := hs.base
  have hdata : ¬ localDataCorrupt s := by
    unfold localDataCorrupt
    omega
  simp only [mallocSearchSigned, meets_bind, meets_get, meets_require]
  refine ⟨hdata, (findFit_spec hs.laid htop hs.bound (by omega)).imp ?_⟩
  rintro res t ⟨rfl, hres⟩
  cases res with
  | inl mh =>
    obtain ⟨l, b, r, rfl, hmh, hfree, hfits⟩ := hres
    refine (mallocFit_spec hs hmh hfree hsize hfits hsz).imp ?_
    rintro a u ⟨hsame, rfl, bs', hu, hperm⟩
    refine ⟨hsame, .inl ⟨⟨_, hs, b, by simp, hfree, hfits⟩, by omega, bs', hu, hperm⟩⟩
  | inr stop =>
    obtain ⟨j, prev⟩ := stop
    obtain ⟨rfl, -, hnone⟩ := hres
    have hfree : ¬ HasFree t size := by
      intro hfree
      obtain ⟨b, hb, hunused, hlen⟩ := hfree.of_heap hs
      have := hnone b hb hunused
      omega
    simp only [meets_bind, meets_require]
    refine ⟨trivial, (mallocExpandSigned_spec hs size prev).imp ?_⟩
    rintro a u ⟨hsame, ⟨rfl, hu, hroom⟩ | ⟨rfl, hroom, hu⟩⟩
    · exact ⟨hsame, .inr (.inl ⟨hfree, rfl, hu, hroom⟩)⟩
    · exact ⟨hsame, .inr (.inr ⟨hfree, rfl, hroom, hu⟩)⟩

/-- Where the heap ends once it has been set up. -/
def Uheap.heapEnd (s : Uheap) : ℕ := if s.heapbase = 0 then (s.brk + 7) / 8 * 8 else s.brk

/-- `malloc` on any state: the setup may end the program; otherwise the search starts on a heap that
holds the same blocks. -/
theorem mallocSigned_of_search {size : ℕ} {Q : ℕ → Uheap → Prop} {H : String → Prop}
    (h : Inv s live)
    (hinit : ∀ msg ∈ initFailures, (s.nomem = [] → 4294967296 ≤ s.heapEnd) → H msg)
    (hsearch : ∀ t bs, Heap t bs → live.Perm (owned t.heapbase bs) → t.brk = s.heapEnd →
      (s.nomem = [] → t.nomem = []) → (∀ n, HasFree t n ↔ HasFree s n) →
      Meets (mallocSearchSigned (roundUp size)) Q (fun _ _ => False) t H) :
    Meets (mallocSigned size) Q (fun _ _ => False) s H := by
  rw [mallocSigned, meets_bind, meets_get]
  rcases h with ⟨hbase, htop, hpos, hbrk, rfl⟩ | ⟨bs, hs, hlive⟩
  · have hend : s.heapEnd = (s.brk + 7) / 8 * 8 := if_pos hbase
    simp only [hbase, if_true, meets_bind]
    refine ((mallocInit_spec hbase htop hpos hbrk).mono_halt fun msg hmsg => ?_).noErr ?_
    · exact hinit msg hmsg.1 fun hnil => (hmsg.2 hnil).trans_eq hend.symm
    · rintro _ t ⟨ht, hbrk', hnomem⟩
      refine hsearch t [] ht (List.Perm.refl _) (hbrk'.trans hend.symm) hnomem fun n => ?_
      refine iff_of_false (fun hfree => ?_) fun hfree => ?_
      · obtain ⟨b, hb, -⟩ := hfree.of_heap ht
        cases hb
      · obtain ⟨bs, hs, -⟩ := hfree
        have := hs.base
        omega
  · have hne : s.heapbase ≠ 0 := by
      have := hs.base
      omega
    have hend : s.heapEnd = s.brk := if_neg hne
    simp only [hne, if_false]
    exact hsearch s bs hs hlive hend.symm (fun hnil => hnil) fun n => Iff.rfl

/-! ## Blocks of the size asked for -/

/-- `malloc(size)` returns null or a block of at least `size` bytes that lies in the heap and apart
from the blocks of `live`, and the heap stays in order, whatever `sbrk` answers. The first call may
end the program if there is no heap. -/
def MallocSound (s : Uheap) (live : List UBlock) (size : ℕ) : Prop :=
  ∀ nomem, Meets (mallocSigned size)
    (fun res t => res = 0 ∧ Inv t live ∨ res ≠ 0 ∧ Inv t (⟨res, size⟩ :: live))
    (fun _ _ => False) { s with nomem := nomem } (· ∈ initFailures)

/-- The answers of `sbrk` to come are not part of the heap. -/
theorem Inv.setNomem (h : Inv s live) (nomem : List Bool) : Inv { s with nomem := nomem } live := by
  rcases h with hnone | ⟨bs, hs, hlive⟩
  · exact .inl hnone
  · exact .inr ⟨bs, { hs with }, hlive⟩

theorem hasFree_setNomem (nomem : List Bool) (size : ℕ) :
    HasFree { s with nomem := nomem } size ↔ HasFree s size := by
  constructor
  · rintro ⟨bs, hs, hb⟩
    exact ⟨bs, { hs with }, hb⟩
  · rintro ⟨bs, hs, hb⟩
    exact ⟨bs, { hs with }, hb⟩

/-- A block that is held lies in the heap. -/
theorem Inv.held {u : UBlock} (h : Inv s (u :: live)) :
    8 ≤ u.addr ∧ u.addr + u.sz ≤ s.heaptop ∧ s.heaptop < 4294967296 := by
  rcases h with ⟨-, -, -, -, hnil⟩ | ⟨bs, hs, hlive⟩
  · cases hnil
  · obtain ⟨l, b, r, rfl, hb, haddr⟩ := exists_of_mem_owned (hlive.mem_iff.mp List.mem_cons_self)
    have hfits := b.fits u.sz hb
    have htop := hs.top
    have hbound := hs.bound
    simp only [span_append, span_cons] at htop
    omega

/-- With a size beyond half the address space, the top of the heap is not moved up by as much. -/
theorem u32_top_lt {top size : ℕ} (htop : top < 4294967296) (hbig : 2147483632 < size)
    (hsize : size < 4294967296) (hroom : Movable top (u32 (roundUp size + mblocksize))) :
    u32 ((top + u32 (roundUp size + mblocksize) : ℕ) : ℤ) < top + 8 + size := by
  unfold Movable at hroom
  unfold roundUp mblocksize at *
  unfold s32 u32 at *
  omega

/-- A large request is answered with a block that is short, unless there is a free block or the
break cannot be moved. -/
theorem not_mallocSound {size : ℕ} (h : Inv s live) (hbig : 2147483632 < size)
    (hsize : size < 4294967296) (hfree : HasFree s (roundUp size) → 4294967288 < size)
    (hroom : ¬ HasFree s (roundUp size) →
      s.heapEnd < 4294967296 ∧ Movable s.heapEnd (u32 (roundUp size + mblocksize))) :
    ¬ MallocSound s live size := by
  have hrun : Meets (mallocSigned size)
      (fun res t => res ≠ 0 ∧ ∀ live', ¬ Inv t (⟨res, size⟩ :: live'))
      (fun _ _ => False) { s with nomem := [] } := by
    refine mallocSigned_of_search (h.setNomem []) (fun msg _ hend => ?_) ?_
    · by_cases hf : HasFree s (roundUp size)
      · obtain ⟨bs, hs, -⟩ := hf
        have hne : s.heapbase ≠ 0 := hs.base.ne'
        have hlt : s.heapEnd < 4294967296 := by
          rw [Uheap.heapEnd, if_neg hne, hs.brk]
          exact hs.bound
        exact absurd (hend rfl) (not_le.mpr hlt)
      · exact absurd (hend rfl) (not_le.mpr (hroom hf).1)
    · intro t bs ht hlive hbrk hnomem hiff
      have htop : t.heaptop = s.heapEnd := ht.brk.symm.trans hbrk
      simp only [hasFree_setNomem] at hiff
      refine (mallocSearchSigned_spec ht (roundUp_mod size) (Nat.zero_le _)).imp ?_
      rintro res u ⟨-, ⟨hf, hne, -⟩ | ⟨hf, -, -, hfail⟩ | ⟨hf, rfl, -, hu⟩⟩
      · -- the block is one of those that were free, but the size was rounded up to zero
        refine ⟨hne, fun live' hinv => ?_⟩
        have hsize := hfree ((hiff _).mp hf)
        obtain ⟨hlo, hhi, hlt⟩ := hinv.held
        simp only at hlo hhi
        omega
      · obtain ⟨-, hmove⟩ := hroom fun hf' => hf ((hiff _).mpr hf')
        exact absurd (hbrk ▸ hmove) (hfail (hnomem rfl))
      · -- the block is at the former end of the heap, and the new end is not above it
        refine ⟨by omega, fun live' hinv => ?_⟩
        obtain ⟨hlt, hmove⟩ := hroom fun hf' => hf ((hiff _).mpr hf')
        have hshort := u32_top_lt hlt hbig hsize hmove
        obtain ⟨-, hhi, -⟩ := hinv.held
        simp only [hu, htop] at hhi
        omega
  intro hsound
  obtain ⟨res, t, hcall, hne, hshort⟩ := hrun.exists_ok
  rcases (hsound []).of_ok hcall with ⟨hnull, -⟩ | ⟨-, hinv⟩
  · exact hne hnull
  · exact hshort live hinv

/-- The block that is taken from the free ones is large enough. -/
theorem mallocSound_of_hasFree {size : ℕ} (h : Inv s live) (hfree : HasFree s (roundUp size))
    (hle : size ≤ 4294967288) : MallocSound s live size := by
  have hround : size ≤ roundUp size := by
    unfold roundUp mblocksize u32
    omega
  intro nomem
  refine mallocSigned_of_search (h.setNomem nomem) (fun msg hmsg _ => hmsg) ?_
  intro t bs ht hlive _ _ hiff
  have hfree' : HasFree t (roundUp size) := (hiff _).mpr ((hasFree_setNomem _ _).mpr hfree)
  refine (mallocSearchSigned_spec ht (roundUp_mod size) hround).partial_of.noErr ?_
  rintro res u ⟨hsame, ⟨-, hne, bs', hu, hperm⟩ | ⟨hf, -⟩ | ⟨hf, -⟩⟩
  · refine .inr ⟨hne, .inr ⟨bs', hu, ?_⟩⟩
    rw [hsame]
    exact (hlive.cons _).trans hperm.symm
  · exact absurd hfree' hf
  · exact absurd hfree' hf

/-- Without a free block, and when `sbrk` can only fail, the answer is null. -/
theorem mallocSound_of_stuck {size : ℕ} (h : Inv s live) (hfree : ¬ HasFree s (roundUp size))
    (hstuck : 4294967296 ≤ s.heapEnd ∨ ¬ Movable s.heapEnd (u32 (roundUp size + mblocksize))) :
    MallocSound s live size := by
  intro nomem
  refine mallocSigned_of_search (h.setNomem nomem) (fun msg hmsg _ => hmsg) ?_
  intro t bs ht hlive hbrk _ hiff
  have hfree' : ¬ HasFree t (roundUp size) := by
    rwa [hiff, hasFree_setNomem]
  have hbound := ht.bound
  have hbrk' := ht.brk
  have hend : t.brk = s.heapEnd := hbrk
  have hfixed : ¬ Movable t.brk (u32 (roundUp size + mblocksize)) := by
    rw [hend]
    exact hstuck.resolve_left (by omega)
  refine (mallocSearchSigned_spec ht (roundUp_mod size) (Nat.zero_le _)).partial_of.noErr ?_
  rintro res u ⟨hsame, ⟨hf, -⟩ | ⟨-, rfl, hu, -⟩ | ⟨-, -, hmove, -⟩⟩
  · exact absurd hf hfree'
  · exact .inl ⟨rfl, .inr ⟨bs, hu, hsame ▸ hlive⟩⟩
  · exact absurd hmove hfixed

/-- **`malloc` never returns a short block**, exactly for the sizes up to half the address space,
for those that need not be rounded up past the end of it and for which there is a free block, and
for those with which `sbrk` can only fail. -/
theorem malloc_sound_iff (s : Uheap) (live : List UBlock) (h : Inv s live) (size : ℕ)
    (hsize : size < 4294967296) :
    MallocSound s live size ↔
      size ≤ 2147483632 ∨ HasFree s (roundUp size) ∧ size ≤ 4294967288 ∨
        ¬ HasFree s (roundUp size) ∧
          (4294967296 ≤ s.heapEnd ∨ ¬ Movable s.heapEnd (u32 (roundUp size + mblocksize))) := by
  constructor
  · intro hsound
    by_contra hnot
    simp only [not_or, not_and, not_le, not_not] at hnot
    obtain ⟨hbig, hfree, hroom⟩ := hnot
    exact not_mallocSound h hbig hsize hfree hroom hsound
  · rintro (hsmall | ⟨hfree, hle⟩ | ⟨hfree, hstuck⟩) nomem
    · rw [mallocSigned_eq hsmall]
      exact malloc_spec (h.setNomem nomem) (by omega)
    · exact mallocSound_of_hasFree h hfree hle nomem
    · exact mallocSound_of_stuck h hfree hstuck nomem

/-- A request of 100 bytes to a new heap. -/
theorem malloc_sound_freshHeap : Inv freshHeap [] ∧ MallocSound freshHeap [] 100 :=
  ⟨reachable_freshHeap.inv,
    (malloc_sound_iff freshHeap [] reachable_freshHeap.inv 100 (by decide)).mpr (.inl (by decide))⟩

/-- A request of all the address space to a new heap is answered with a block that has no room
behind its header. -/
theorem malloc_short_block :
    (mallocSigned 4294967295 freshHeap).valueD 0 = 0x412008 ∧
      mSize ((mallocSigned 4294967295 freshHeap).stateD freshHeap).mem 0x412000 = 0 ∧
      ¬ MallocSound freshHeap [] 4294967295 := by
  have hvalue : (mallocSigned 4294967295 freshHeap).valueD 0 = 0x412008 := by decide +kernel
  refine ⟨hvalue, by decide +kernel, fun hsound => ?_⟩
  have hcall := Outcome.eq_ok (mallocSigned 4294967295 freshHeap) 0 freshHeap (by decide +kernel)
  rw [hvalue] at hcall
  rcases (hsound []).of_ok hcall with ⟨hnull, -⟩ | ⟨-, hinv⟩
  · exact absurd hnull (by decide)
  · obtain ⟨-, hhi, hlt⟩ := hinv.held
    simp only at hhi
    omega

end Os161.Malloc
