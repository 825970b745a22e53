import Os161.Libc.MallocInvariant

/-!
# The user heap is consistent

`malloc` and `free` keep the invariant (`malloc_spec`, `free_spec`), so it holds along every
sequence of calls: the headers fill the heap, no two neighbours are both free, and the blocks that
the program holds are large enough, aligned and apart. The exits of the allocator that report a
corrupt heap are not reached, with one exception: a block of no bytes at the top of the heap has its
data at `__heaptop`, and `free` takes that for a pointer that is not on the heap.
-/

namespace Os161.Malloc

open Prog Tiling

variable {s : Uheap} {live : List UBlock} {bs l r : List Block} {b : Block}

/-- Memory and blocks change together. -/
theorem Heap.edit (hs : Heap s bs) {mem : ℕ → ℕ} {bs' : List Block}
    (hl : Laid mem s.heapbase 0 bs') (hspan : span Block.len bs' = span Block.len bs)
    (happart : Separated bs') : Heap { s with mem := mem } bs' :=
  { hs with laid := hl, top := by rw [hspan]; exact hs.top, apart := happart }

/-! ## Allocation -/

/-- The block `b` in use for a request of `sz` bytes. -/
def Block.use (b : Block) (sz : ℕ) (hsz : sz + 8 ≤ b.len) : Block :=
  { b with owner := some sz, fits := fun _ h => Option.some.inj h ▸ hsz }

/-- A free block that is taken, as a whole or its lower part. -/
theorem mallocFit_spec {h size sz : ℕ} (hs : Heap s (l ++ b :: r))
    (hh : h = s.heapbase + span Block.len l) (hfree : ¬ b.Used) (hsize : size % 8 = 0)
    (hfits : size + 8 ≤ b.len) (hsz : sz ≤ size) :
    Meets (do mallocSplit h size; setInuse h 1; return mData h)
      (fun res t => t.heapbase = s.heapbase ∧ res = h + 8 ∧ ∃ bs, Heap t bs ∧
        (owned s.heapbase bs).Perm (⟨res, sz⟩ :: owned s.heapbase (l ++ b :: r)))
      (fun _ _ => False) s := by
  obtain ⟨hsl, hsr, hlast, hhead⟩ := (separated_free hfree).mp hs.apart
  simp only [meets_bind]
  refine (mallocSplit_spec hs.laid hs.top hs.bound hh hfree hsize hfits).imp ?_
  rintro _ t (rfl | ⟨c, d, mem, hd, hclen, hlen, hc, rfl, hl⟩)
  · have hused : (b.use sz (by omega)).Used := rfl
    refine (setInuse_spec (c := b.use sz (by omega)) hs.laid hh rfl
      (iff_of_true hused (by decide))).imp ?_
    rintro _ _ ⟨mem, rfl, hl, -⟩
    refine ⟨rfl, rfl, _, hs.edit hl (by simp [Block.use]) ?_, ?_⟩
    · exact (separated_used hused).mpr ⟨hsl, hsr⟩
    · rw [owned_cut_free _ _ hfree, owned_cut_used _ _ (b := b.use sz (by omega)) rfl, mData,
        mblocksize, hh]
      exact List.perm_middle
  · have hused : (c.use sz (by omega)).Used := rfl
    refine (setInuse_spec (s := { s with mem := mem }) (c := c.use sz (by omega)) hl hh rfl
      (iff_of_true hused (by decide))).imp ?_
    rintro _ _ ⟨mem', rfl, hl', -⟩
    refine ⟨rfl, rfl, _, hs.edit hl' ?_ ?_, ?_⟩
    · simp only [span_append, span_cons, Block.use]
      omega
    · refine (separated_used hused).mpr ⟨hsl, ?_⟩
      exact (separated_free (l := []) hd).mpr ⟨.nil, hsr, by simp, hhead⟩
    · rw [owned_cut_free _ _ hfree, owned_cut_used _ _ (b := c.use sz (by omega)) rfl, mData,
        mblocksize, hh]
      have hd' := owned_cut_free (s.heapbase + span Block.len l + (c.use sz (by omega)).len) [] hd r
      rw [List.nil_append] at hd'
      rw [hd', ← hlen]
      simp only [Block.use, span_nil, Nat.add_zero, Nat.add_assoc]
      exact List.perm_middle

/-- `malloc` on an existing heap, for a request of `sz` bytes rounded up to `size`. -/
theorem mallocSearch_spec {size sz : ℕ} (hs : Heap s bs) (hsize : size % 8 = 0)
    (hle : size ≤ 2147483648) (hsz : sz ≤ size) :
    Meets (mallocSearch size)
      (fun res t => t.heapbase = s.heapbase ∧ (res = 0 ∧ Heap t bs ∨ res ≠ 0 ∧ ∃ bs', Heap t bs' ∧
        (owned s.heapbase bs').Perm (⟨res, sz⟩ :: owned s.heapbase bs)))
      (fun _ _ => False) s := by
  have htop := hs.top
  have hbase := hs.base
  have hdata : ¬ localDataCorrupt s := by
    unfold localDataCorrupt
    omega
  simp only [mallocSearch, meets_bind, meets_get, meets_require]
  refine ⟨hdata, (findFit_spec hs.laid htop hs.bound (by omega)).imp ?_⟩
  rintro res t ⟨rfl, hres⟩
  cases res with
  | inl mh =>
    obtain ⟨l, b, r, rfl, hmh, hfree, hfits⟩ := hres
    refine (mallocFit_spec hs hmh hfree hsize hfits hsz).imp ?_
    rintro a u ⟨hsame, rfl, bs', hu, hperm⟩
    exact ⟨hsame, .inr ⟨by omega, bs', hu, hperm⟩⟩
  | inr stop =>
    obtain ⟨j, prev⟩ := stop
    obtain ⟨rfl, hprev, -⟩ := hres
    simp only [meets_bind, meets_require]
    refine ⟨trivial, (mallocExpand_spec hs hsize hle hsz hprev).imp ?_⟩
    rintro a u ⟨hsame, ⟨rfl, hu⟩ | ⟨b, hb, rfl, hu⟩⟩
    · exact ⟨hsame, .inl ⟨rfl, hu⟩⟩
    · refine ⟨hsame, .inr ⟨by omega, _, hu, ?_⟩⟩
      rw [owned_cut_used _ _ hb, htop]
      exact List.perm_append_singleton _ _

/-- Once there is a heap, there is nothing to set up. -/
theorem malloc_eq (hs : Heap s bs) (size : ℕ) : malloc size s = mallocSearch (roundUp size) s := by
  have hne : s.heapbase ≠ 0 := by
    have := hs.base
    omega
  simp only [malloc, bind, Prog.bind, Prog.get, hne, if_false]

/-- Requests of at most `2 ^ 31` bytes are rounded up without overflow. -/
theorem roundUp_spec {size : ℕ} (hsize : size ≤ 2147483648) :
    roundUp size % 8 = 0 ∧ roundUp size ≤ 2147483648 ∧ size ≤ roundUp size := by
  unfold roundUp mblocksize u32
  omega

/-- `malloc` keeps the invariant. It ends the program only when there is no heap yet and `sbrk`
fails. -/
theorem malloc_spec (h : Inv s live) {size : ℕ} (hsize : size ≤ 2147483648) :
    Meets (malloc size)
      (fun res t => res = 0 ∧ Inv t live ∨ res ≠ 0 ∧ Inv t (⟨res, size⟩ :: live))
      (fun _ _ => False) s (· ∈ initFailures) := by
  have hround := roundUp_spec hsize
  -- what follows the setup
  have hsearch : ∀ t bs, Heap t bs → live.Perm (owned t.heapbase bs) →
      Meets (mallocSearch (roundUp size))
        (fun res t => res = 0 ∧ Inv t live ∨ res ≠ 0 ∧ Inv t (⟨res, size⟩ :: live))
        (fun _ _ => False) t (· ∈ initFailures) := by
    intro t bs ht hlive
    refine (mallocSearch_spec ht hround.1 hround.2.1 hround.2.2).partial_of.noErr ?_
    rintro res u ⟨hsame, ⟨rfl, hu⟩ | ⟨hne, bs', hu, hperm⟩⟩
    · exact .inl ⟨rfl, .inr ⟨bs, hu, hsame ▸ hlive⟩⟩
    · refine .inr ⟨hne, .inr ⟨bs', hu, ?_⟩⟩
      rw [hsame]
      exact (hlive.cons _).trans hperm.symm
  rcases h with ⟨hbase, htop, hpos, hbrk, rfl⟩ | ⟨bs, hs, hlive⟩
  · rw [malloc, meets_bind, meets_get]
    simp only [hbase, if_true, meets_bind]
    refine ((mallocInit_spec hbase htop hpos hbrk).mono_halt fun _ hmsg => hmsg.1).noErr ?_
    rintro _ t ⟨ht, -⟩
    exact hsearch t [] ht (List.Perm.refl _)
  · unfold Meets
    rw [malloc_eq hs]
    exact hsearch s bs hs hlive

/-! ## Release -/

theorem merge_not_used (b c : Block) : ¬ (b.merge c).Used := by
  simp [Block.Used, Block.merge, Block.unused]

/-- The free block `f` in a heap that is otherwise in order: `hs` is the heap before the block was
freed, and its upper neighbour may be free as well. -/
structure Freed (s : Uheap) (bs l : List Block) (f : Block) (r : List Block) (mem : ℕ → ℕ) :
    Prop where
  before : Heap s bs
  laid : Laid mem s.heapbase 0 (l ++ f :: r)
  span_eq : span Block.len (l ++ f :: r) = span Block.len bs
  free : ¬ f.Used
  below : Separated l
  above : Separated r

/-- Merging with the block above. -/
theorem mergeAbove_spec {f : Block} {mem : ℕ → ℕ} {h : ℕ} (hf : Freed s bs l f r mem)
    (hh : h = s.heapbase + span Block.len l) :
    Meets (mergeAbove h)
      (fun _ t => ∃ (f' : Block) (r' : List Block) (mem' : ℕ → ℕ), t = { s with mem := mem' } ∧
        Freed s bs l f' r' mem' ∧ (∀ c ∈ r'.head?, c.Used) ∧
        owned s.heapbase (l ++ f' :: r') = owned s.heapbase (l ++ f :: r))
      (fun _ _ => False) { s with mem := mem } := by
  have htop := hf.before.top
  have hspan := hf.span_eq
  have hnext := (laid_cut.mp hf.laid).2.1.next
  rw [← hh] at hnext
  rw [mergeAbove, meets_bind, meets_get]
  simp only [hnext]
  rw [meets_ite]
  cases r with
  | nil =>
    simp only [span_append, span_cons, span_nil] at hspan
    refine ⟨fun hne => absurd (by omega) hne, fun _ => ?_⟩
    exact ⟨f, [], mem, rfl, hf, by simp, rfl⟩
  | cons c r =>
    have hcl := c.header
    have hspan' := hspan
    simp only [span_append, span_cons] at hspan'
    refine ⟨fun _ => ?_, fun heq => absurd (by omega) heq⟩
    refine (mallocTrymerge_spec (s := { s with mem := mem }) hf.laid
      (by rw [hspan]; exact htop) hf.before.bound hh).imp ?_
    rintro _ t (⟨hused, rfl⟩ | ⟨-, hc, mem', rfl, hl⟩)
    · have hc := hused.resolve_left hf.free
      refine ⟨f, c :: r, mem, rfl, hf, fun x hx => ?_, rfl⟩
      obtain rfl := Option.some.inj hx
      exact hc
    · obtain ⟨-, hr, -, hhead⟩ := (separated_free (l := []) hc).mp hf.above
      refine ⟨f.merge c, r, mem', rfl, ⟨hf.before, hl, ?_, merge_not_used f c, hf.below, hr⟩,
        hhead, ?_⟩
      · simp only [span_append, span_cons, Block.merge, Block.unused]
        omega
      · have hsplit : l ++ f :: c :: r = (l ++ [f]) ++ c :: r := by simp
        rw [owned_cut_free _ _ (merge_not_used f c), hsplit, owned_cut_free _ _ hc,
          owned_cut_free _ _ hf.free]
        simp only [span_append, span_cons, span_nil, Nat.add_zero, Block.merge, Block.unused,
          Nat.add_assoc]
        simp [owned]

/-- Merging with the block below. -/
theorem mergeBelow_spec {f : Block} {mem : ℕ → ℕ} {h : ℕ} (hf : Freed s bs l f r mem)
    (hh : h = s.heapbase + span Block.len l) (hhead : ∀ c ∈ r.head?, c.Used) :
    Meets (mergeBelow h)
      (fun _ t => ∃ (mem' : ℕ → ℕ) (bs' : List Block), t = { s with mem := mem' } ∧ Heap t bs' ∧
        owned s.heapbase bs' = owned s.heapbase (l ++ f :: r))
      (fun _ _ => False) { s with mem := mem } := by
  have htop := hf.before.top
  have hspan := hf.span_eq
  rw [mergeBelow, meets_bind, meets_get, meets_ite]
  dsimp only
  rcases List.eq_nil_or_concat l with rfl | ⟨l, d, rfl⟩
  · refine ⟨fun hne => absurd hh hne, fun _ => ?_⟩
    refine ⟨mem, _, rfl, hf.before.edit hf.laid hspan ?_, rfl⟩
    exact (separated_free hf.free).mpr ⟨.nil, hf.above, by simp, hhead⟩
  · rw [List.concat_eq_append] at *
    have hdl := d.header
    have hprev := (laid_cut.mp hf.laid).2.1.prev
    rw [lastLen_append_singleton, ← hh] at hprev
    simp only [span_append, span_cons, span_nil, Nat.add_zero] at hh
    refine ⟨fun _ => ?_, fun heq => absurd (by omega) heq⟩
    rw [hprev]
    have hsplit : l ++ [d] ++ f :: r = l ++ d :: f :: r := by simp
    have hlaid := hf.laid
    rw [hsplit] at hlaid hspan
    have hbelow : h - d.len = s.heapbase + span Block.len l := by omega
    have hmerge := mallocTrymerge_spec (s := { s with mem := mem }) hlaid
      (by rw [hspan]; exact htop) hf.before.bound hbelow
    rw [show h - d.len + d.len = h by omega] at hmerge
    refine hmerge.imp ?_
    rintro _ t (⟨hused, rfl⟩ | ⟨hd, -, mem', rfl, hl⟩)
    · have hd := hused.resolve_right hf.free
      refine ⟨mem, l ++ d :: f :: r, rfl, hf.before.edit hlaid hspan ?_, by rw [hsplit]⟩
      have hl := ((separated_used hd).mp hf.below).1
      have hr := (separated_free (l := []) hf.free).mpr ⟨.nil, hf.above, by simp, hhead⟩
      exact (separated_used hd).mpr ⟨hl, hr⟩
    · obtain ⟨hsl, -, hlast, -⟩ := (separated_free hd).mp hf.below
      refine ⟨mem', l ++ d.merge f :: r, rfl, hf.before.edit hl ?_ ?_, ?_⟩
      · rw [← hspan]
        simp only [span_append, span_cons, Block.merge, Block.unused, Nat.add_assoc]
      · exact (separated_free (merge_not_used d f)).mpr ⟨hsl, hf.above, hlast, hhead⟩
      · rw [owned_cut_free _ _ (merge_not_used d f), owned_cut_free _ _ hf.free,
          owned_cut_free _ _ hd]
        simp [owned, Block.merge, Block.unused, Nat.add_assoc]

/-- Where a block that is held lies. -/
theorem exists_of_mem_owned {a : ℕ} {u : UBlock} (hu : u ∈ owned a bs) :
    ∃ l b r, bs = l ++ b :: r ∧ b.owner = some u.sz ∧ u.addr = a + span Block.len l + 8 := by
  obtain ⟨⟨h, b⟩, hmem, hmap⟩ := List.mem_filterMap.mp hu
  obtain ⟨sz, hsz, rfl⟩ := Option.map_eq_some_iff.mp hmap
  obtain ⟨l, r, rfl, rfl⟩ := exists_of_mem_place hmem
  exact ⟨l, b, r, rfl, hsz, rfl⟩

/-- A block without its owner. -/
def Block.release (b : Block) : Block := Block.unused b.len b.aligned b.header

/-- `free` takes back a block that does not end at the top of the heap with its header. -/
theorem free_spec {u : UBlock} (h : Inv s (u :: live)) (hne : u.addr ≠ s.heaptop) :
    Meets (free u.addr) (fun _ t => Inv t live) (fun _ _ => False) s := by
  rcases h with ⟨-, -, -, -, hnil⟩ | ⟨bs, hs, hlive⟩
  · cases hnil
  obtain ⟨l, b, r, rfl, hb, haddr⟩ := exists_of_mem_owned (hlive.mem_iff.mp List.mem_cons_self)
  obtain ⟨mh, hmh⟩ : ∃ mh, mh = s.heapbase + span Block.len l := ⟨_, rfl⟩
  have htop := hs.top
  have hbase := hs.base
  have hbound := hs.bound
  have hbl := b.header
  have hused : b.Used := by rw [Block.Used, hb]; rfl
  simp only [span_append, span_cons] at htop
  obtain ⟨-, hhb, -⟩ := laid_cut.mp hs.laid
  rw [← hmh] at hhb
  have hptr : u.addr - mblocksize = mh := by
    unfold mblocksize
    omega
  have hdata : ¬ localDataCorrupt s := by
    unfold localDataCorrupt
    omega
  rw [free, if_neg (by omega)]
  simp only [meets_bind, meets_get, meets_require, hptr]
  refine ⟨hdata, by omega, hhb.ok, hhb.inuse.mpr hused, ?_⟩
  -- the block is marked free
  have hrel : ¬ b.release.Used := by simp [Block.Used, Block.release, Block.unused]
  refine (setInuse_spec (c := b.release) hs.laid hmh rfl
    (iff_of_false hrel (by decide))).imp ?_
  rintro _ _ ⟨m₁, rfl, hl₁, hhb₁⟩
  -- its data is overwritten
  have hsize : mSize m₁ mh = b.len - 8 := hhb₁.size (by simp only [Block.release, Block.unused]; omega)
  rw [hsize]
  refine (mallocDeadbeef_spec _ _).imp ?_
  rintro _ _ ⟨m₂, rfl, hframe⟩
  simp only [mData, mblocksize] at hframe
  have hl₂ : Laid m₂ s.heapbase 0 (l ++ b.release :: r) := by
    obtain ⟨hlow, -, hhigh⟩ := laid_cut.mp hl₁
    rw [← hmh] at hhigh
    rw [laid_cut, ← hmh]
    refine ⟨Laid.congr hlow fun x _ hx => hframe x (by omega),
      hhb₁.congr (hframe mh (by omega)) (hframe (mh + 4) (by omega)), ?_⟩
    refine Laid.congr hhigh fun x hx _ => hframe x ?_
    simp only [Block.release, Block.unused] at hx
    omega
  obtain ⟨hsl, hsr⟩ := (separated_used hused).mp hs.apart
  have hfreed : Freed s (l ++ b :: r) l b.release r m₂ :=
    ⟨hs, hl₂, by simp [Block.release, Block.unused], hrel, hsl, hsr⟩
  refine (mergeAbove_spec hfreed hmh).imp ?_
  rintro _ _ ⟨f', r', m₃, rfl, hf', hhead, howned⟩
  refine (mergeBelow_spec hf' hmh hhead).imp ?_
  rintro _ t ⟨m₄, bs', rfl, ht, howned'⟩
  refine .inr ⟨bs', ht, ?_⟩
  rw [owned_cut_used _ _ hb] at hlive
  rw [howned', howned, owned_cut_free _ _ hrel]
  have hu : u = ⟨s.heapbase + span Block.len l + 8, u.sz⟩ := by
    rw [← haddr]
  rw [← hu] at hlive
  exact (hlive.trans List.perm_middle).cons_inv

/-- A block whose data is at the top of the heap is turned down. -/
theorem free_top {u : UBlock} (h : Inv s (u :: live)) (htop : u.addr = s.heaptop) :
    free u.addr s = .halted "free: Invalid pointer %p freed (out of range)" := by
  rcases h with ⟨-, -, -, -, hnil⟩ | ⟨bs, hs, -⟩
  · cases hnil
  have hbase := hs.base
  have htop' := hs.top
  have hdata : ¬ localDataCorrupt s := by
    unfold localDataCorrupt
    omega
  have hhalt : Meets (free u.addr) (fun _ _ => False) (fun _ _ => False) s
      (· = "free: Invalid pointer %p freed (out of range)") := by
    rw [free, if_neg (by omega)]
    simp only [meets_bind, meets_get, meets_require_iff]
    refine ⟨fun _ => ⟨fun hin => absurd (.inr htop.ge) hin, fun _ => trivial⟩,
      fun hbad => absurd hdata hbad⟩
  obtain ⟨msg, hrun⟩ := hhalt.exists_halted
  rw [hrun, hhalt.of_halted hrun]

/-- `free` of the null pointer does nothing. -/
theorem free_null (s : Uheap) : free 0 s = .ok () s := rfl

/-- The program may write to its blocks. -/
theorem Inv.write (h : Inv s live) {u : UBlock} (hu : u ∈ live) {x : ℕ} (hlo : u.addr ≤ x)
    (hhi : x < u.addr + u.sz) (v : ℕ) :
    Inv { s with mem := Function.update s.mem x v } live := by
  rcases h with ⟨-, -, -, -, rfl⟩ | ⟨bs, hs, hlive⟩
  · cases hu
  obtain ⟨l, b, r, rfl, hb, haddr⟩ := exists_of_mem_owned (hlive.mem_iff.mp hu)
  have hfits := b.fits u.sz hb
  obtain ⟨hlow, hhb, hhigh⟩ := laid_cut.mp hs.laid
  have hsame : ∀ y, y ≠ x → Function.update s.mem x v y = s.mem y :=
    fun y hy => Function.update_of_ne hy _ _
  refine .inr ⟨_, hs.edit (laid_cut.mpr ⟨?_, ?_, ?_⟩) rfl hs.apart, hlive⟩
  · exact Laid.congr hlow fun y _ hy => hsame y (by omega)
  · exact hhb.congr (hsame _ (by omega)) (hsame _ (by omega))
  · exact Laid.congr hhigh fun y hy _ => hsame y (by omega)

/-! ## What the invariant says about the headers -/

/-- The headers `mhs`, reached from `a` by their `mh_nextblock`, fill the heap up to `top`, and each
`mh_prevblock` is the `mh_nextblock` of the header before, or `prev` for the first. -/
def Tiles (mem : ℕ → ℕ) (top : ℕ) : (a prev : ℕ) → List ℕ → Prop
  | a, _, [] => a = top
  | a, prev, mh :: mhs => mh = a ∧ mOk mem mh ∧ mhPrevblock mem mh = prev ∧ mNextoff mem mh ≠ 0 ∧
      Tiles mem top (mh + mNextoff mem mh) (mhNextblock mem mh) mhs

/-- The addresses of the headers. -/
def headers (a : ℕ) (bs : List Block) : List ℕ := (place Block.len a bs).map Prod.fst

theorem Laid.tiles {mem : ℕ → ℕ} {top a prev : ℕ} (hl : Laid mem a (prev * 8) bs)
    (htop : top = a + span Block.len bs) : Tiles mem top a prev (headers a bs) := by
  induction bs generalizing a prev with
  | nil => exact htop.symm
  | cons b bs ih =>
    obtain ⟨hb, hbs⟩ := hl
    have hbl := b.header
    have hnext := hb.next
    have hprev := hb.prev
    rw [span_cons] at htop
    simp only [headers, place_cons, List.map_cons]
    refine ⟨rfl, hb.ok, ?_, by omega, ?_⟩
    · simp only [mPrevoff, mblocksize] at hprev
      omega
    · rw [hnext]
      refine ih ?_ (by omega)
      simp only [mNextoff, mblocksize] at hnext
      rw [hnext]
      exact hbs

theorem Laid.inuse_chain {mem : ℕ → ℕ} {a p : ℕ} (hl : Laid mem a p bs) (happart : Separated bs) :
    (headers a bs).IsChain fun mh mh' => mhInuse mem mh ≠ 0 ∨ mhInuse mem mh' ≠ 0 := by
  induction bs generalizing a p with
  | nil => exact .nil
  | cons b bs ih =>
    obtain ⟨hb, hbs⟩ := hl
    cases bs with
    | nil => exact .singleton a
    | cons c bs =>
      obtain ⟨hbc, happart⟩ := List.isChain_cons_cons.mp happart
      refine List.isChain_cons_cons.mpr ⟨?_, ih hbs happart⟩
      rw [hb.inuse, hbs.1.inuse]
      exact hbc

theorem span_mod (bs : List Block) : span Block.len bs % 8 = 0 := by
  induction bs with
  | nil => rfl
  | cons b bs ih =>
    have := b.aligned
    rw [span_cons]
    omega

/-- What the program knows of a block that it holds. -/
theorem Heap.held (hs : Heap s bs) {u : UBlock} (hu : u ∈ owned s.heapbase bs) :
    ∃ mh ∈ headers s.heapbase bs, u.addr = mData mh ∧ mhInuse s.mem mh ≠ 0 ∧ u.addr % 8 = 0 ∧
      u.sz ≤ mSize s.mem mh := by
  obtain ⟨l, b, r, rfl, hb, haddr⟩ := exists_of_mem_owned hu
  have htop := hs.top
  have hbound := hs.bound
  have hbase := hs.aligned
  obtain ⟨-, hhb, -⟩ := laid_cut.mp hs.laid
  simp only [span_append, span_cons] at htop
  have hused : b.Used := by rw [Block.Used, hb]; rfl
  refine ⟨s.heapbase + span Block.len l, ?_, haddr, hhb.inuse.mpr hused, ?_, ?_⟩
  · simp only [headers, place_append, place_cons, List.map_append, List.map_cons]
    exact List.mem_append_right _ List.mem_cons_self
  · have hspan := span_mod l
    omega
  · rw [hhb.size (by omega)]
    have := b.fits u.sz hb
    omega

/-- The bytes of different blocks are apart, and a header lies between them. -/
def Apart (mem : ℕ → ℕ) (u v : UBlock) : Prop :=
  u.addr + mSize mem (u.addr - mblocksize) < v.addr ∨
    v.addr + mSize mem (v.addr - mblocksize) < u.addr

theorem Heap.held_apart (hs : Heap s bs) : (owned s.heapbase bs).Pairwise (Apart s.mem) := by
  refine List.pairwise_filterMap.mpr (pairwise_place.imp_of_mem ?_)
  rintro ⟨h, b⟩ ⟨h', b'⟩ hmem - hle u hu v hv
  obtain ⟨sz, -, rfl⟩ := Option.map_eq_some_iff.mp hu
  obtain ⟨sz', -, rfl⟩ := Option.map_eq_some_iff.mp hv
  have htop := hs.top
  have hbound := hs.bound
  have hrange := range_of_mem_place hmem
  obtain ⟨l, r, rfl, rfl⟩ := exists_of_mem_place hmem
  have hbl := b.header
  have hsize := (laid_cut.mp hs.laid).2.1.size (by omega)
  refine .inl ?_
  simp only [mblocksize, Nat.add_sub_cancel] at hle ⊢
  rw [hsize]
  omega

/-! ## Runs -/

/-- The heap and the blocks that the program holds. -/
structure UState where
  heap : Uheap
  live : List UBlock

/-- One step of the program: any `malloc` of at most `2 ^ 31` bytes, a `free` of the null pointer or
of a block that it holds, or a write to such a block. -/
inductive UStep : UState → UState → Prop where
  | malloc {s : UState} {size addr : ℕ} {h : Uheap} (hsize : size ≤ 2 ^ 31)
      (hcall : Malloc.malloc size s.heap = .ok addr h) :
      UStep s ⟨h, if addr = 0 then s.live else ⟨addr, size⟩ :: s.live⟩
  | freeNull {s : UState} {h : Uheap} (hcall : Malloc.free 0 s.heap = .ok () h) :
      UStep s ⟨h, s.live⟩
  | free {s : UState} {u : UBlock} {h : Uheap} (hlive : u ∈ s.live)
      (hcall : Malloc.free u.addr s.heap = .ok () h) : UStep s ⟨h, s.live.erase u⟩
  | write {s : UState} {u : UBlock} {x v : ℕ} (hlive : u ∈ s.live) (hlo : u.addr ≤ x)
      (hhi : x < u.addr + u.sz) :
      UStep s ⟨{ s.heap with mem := Function.update s.heap.mem x v }, s.live⟩

/-- The states of a program after any number of steps. At the start there is no heap, the break is
anywhere, and memory and the answers of `sbrk` are arbitrary. -/
def UState.Reachable (s : UState) : Prop :=
  ∃ h₀ : Uheap, h₀.heapbase = 0 ∧ h₀.heaptop = 0 ∧ 0 < h₀.brk ∧ h₀.brk < 2 ^ 32 ∧
    Relation.ReflTransGen UStep ⟨h₀, []⟩ s

/-- The order of the ledger does not matter. -/
theorem Inv.perm {h : Uheap} {live' : List UBlock} (hi : Inv h live) (hperm : live.Perm live') :
    Inv h live' := by
  rcases hi with ⟨hbase, htop, hpos, hbrk, rfl⟩ | ⟨bs, hs, hlive⟩
  · exact .inl ⟨hbase, htop, hpos, hbrk, hperm.nil_eq.symm⟩
  · exact .inr ⟨bs, hs, hperm.symm.trans hlive⟩

/-- One step keeps the invariant. -/
theorem UStep.inv {s t : UState} (hstep : UStep s t) (h : Inv s.heap s.live) :
    Inv t.heap t.live := by
  cases hstep with
  | @malloc size addr h' hsize hcall =>
    rcases (malloc_spec h hsize).of_ok hcall with ⟨rfl, hi⟩ | ⟨hne, hi⟩
    · simpa using hi
    · simpa only [if_neg hne] using hi
  | freeNull hcall =>
    rw [free_null] at hcall
    cases hcall
    exact h
  | @free u h' hlive hcall =>
    have hi := h.perm (List.perm_cons_erase hlive)
    by_cases htop : u.addr = s.heap.heaptop
    · rw [free_top hi htop] at hcall
      cases hcall
    · exact (free_spec hi htop).of_ok hcall
  | write hlive hlo hhi => exact h.write hlive hlo hhi _

/-- The invariant holds in every state of every run. -/
theorem UState.Reachable.inv {s : UState} (hs : s.Reachable) : Inv s.heap s.live := by
  obtain ⟨h₀, hbase, htop, hpos, hbrk, hrun⟩ := hs
  induction hrun with
  | refl => exact .inl ⟨hbase, htop, hpos, hbrk, rfl⟩
  | tail _ hstep ih => exact hstep.inv ih

/-- **The user heap is consistent.** In every state of every run the headers reached from
`__heapbase` fill the heap up to `__heaptop`, each says how long the block before it is, and no two
neighbours are both free; a block that the program holds is a block in use, aligned and large
enough, and apart from the others. `malloc` ends the program only when there is no heap yet and
`sbrk` fails, and `free` of a block that is held ends the program exactly when the data of the block
is at `__heaptop`: when it is a block of no bytes and the last one of the heap. -/
theorem uheap_consistent {s : UState} (hs : s.Reachable) :
    (∃ mhs : List ℕ, Tiles s.heap.mem s.heap.heaptop s.heap.heapbase 0 mhs ∧
      (mhs.IsChain fun mh mh' => mhInuse s.heap.mem mh ≠ 0 ∨ mhInuse s.heap.mem mh' ≠ 0) ∧
      ∀ u ∈ s.live, ∃ mh ∈ mhs, u.addr = mData mh ∧ mhInuse s.heap.mem mh ≠ 0 ∧
        u.addr % 8 = 0 ∧ u.sz ≤ mSize s.heap.mem mh) ∧
    s.live.Pairwise (Apart s.heap.mem) ∧
    (∀ size ≤ 2 ^ 31, (∃ addr h, malloc size s.heap = .ok addr h) ∨
      s.heap.heapbase = 0 ∧ ∃ msg ∈ initFailures, malloc size s.heap = .halted msg) ∧
    (∃ h, free 0 s.heap = .ok () h) ∧
    ∀ u ∈ s.live, (u.addr ≠ s.heap.heaptop → ∃ h, free u.addr s.heap = .ok () h) ∧
      (u.addr = s.heap.heaptop →
        free u.addr s.heap = .halted "free: Invalid pointer %p freed (out of range)") := by
  have hinv := hs.inv
  refine ⟨?_, ?_, fun size hsize => ?_, ⟨_, free_null _⟩, fun u hu => ⟨fun hne => ?_, fun heq => ?_⟩⟩
  · rcases hinv with ⟨hbase, htop, -, -, hnil⟩ | ⟨bs, hheap, hlive⟩
    · refine ⟨[], hbase.trans htop.symm, .nil, fun u hu => ?_⟩
      rw [hnil] at hu
      cases hu
    · have htiles : Tiles s.heap.mem s.heap.heaptop s.heap.heapbase 0 (headers s.heap.heapbase bs) :=
        Laid.tiles hheap.laid hheap.top
      exact ⟨headers s.heap.heapbase bs, htiles,
        Laid.inuse_chain hheap.laid hheap.apart, fun u hu => hheap.held (hlive.mem_iff.mp hu)⟩
  · rcases hinv with ⟨-, -, -, -, hnil⟩ | ⟨bs, hheap, hlive⟩
    · rw [hnil]
      exact .nil
    · exact (hlive.pairwise_iff fun h => h.symm).mpr hheap.held_apart
  · rcases id hinv with ⟨hbase, -⟩ | ⟨bs, hheap, -⟩
    · have hspec := malloc_spec hinv hsize
      cases hrun : malloc size s.heap with
      | ok addr h => exact .inl ⟨addr, h, rfl⟩
      | err e h => exact (hspec.of_err hrun).elim
      | halted msg => exact .inr ⟨hbase, msg, hspec.of_halted hrun, rfl⟩
    · obtain ⟨hround, hle, hsz⟩ := roundUp_spec hsize
      obtain ⟨addr, h, hrun, -⟩ := (mallocSearch_spec hheap hround hle hsz).exists_ok
      exact .inl ⟨addr, h, (malloc_eq hheap size).trans hrun⟩
  · obtain ⟨⟨⟩, h, hrun, -⟩ := (free_spec (hinv.perm (List.perm_cons_erase hu)) hne).exists_ok
    exact ⟨h, hrun⟩
  · exact free_top (hinv.perm (List.perm_cons_erase hu)) heq

/-- A program that has not called `malloc` yet, with the break at a page boundary. -/
def freshHeap : Uheap where
  mem := fun _ => 0
  heapbase := 0
  heaptop := 0
  brk := 0x412000
  nomem := []

/-- `malloc`, by its resulting state. -/
def afterMalloc (size : ℕ) (s : UState) : UState :=
  let addr := (malloc size s.heap).valueD 0
  ⟨(malloc size s.heap).stateD s.heap, if addr = 0 then s.live else ⟨addr, size⟩ :: s.live⟩

/-- `free` of a block, by its resulting state. -/
def afterFree (u : UBlock) (s : UState) : UState :=
  ⟨(free u.addr s.heap).stateD s.heap, s.live.erase u⟩

theorem reachable_freshHeap : UState.Reachable ⟨freshHeap, []⟩ :=
  ⟨freshHeap, rfl, rfl, by decide, by decide, .refl⟩

theorem UState.Reachable.malloc {s : UState} (hs : s.Reachable) {size : ℕ} (hsize : size ≤ 2 ^ 31)
    (hok : (Malloc.malloc size s.heap).isOk = true) : (afterMalloc size s).Reachable := by
  obtain ⟨h₀, hbase, htop, hpos, hbrk, hrun⟩ := hs
  exact ⟨h₀, hbase, htop, hpos, hbrk, hrun.tail (.malloc hsize (Outcome.eq_ok _ _ _ hok))⟩

theorem UState.Reachable.free {s : UState} (hs : s.Reachable) {u : UBlock} (hu : u ∈ s.live)
    (hok : (Malloc.free u.addr s.heap).isOk = true) : (afterFree u s).Reachable := by
  obtain ⟨h₀, hbase, htop, hpos, hbrk, hrun⟩ := hs
  exact ⟨h₀, hbase, htop, hpos, hbrk, hrun.tail (.free hu (Outcome.eq_ok _ () _ hok))⟩

/-- Two blocks, of which the first is freed and partly used again. -/
theorem uheap_consistent_reused : ∃ s : UState, s.Reachable ∧
    s.live = [⟨0x412008, 8⟩, ⟨0x412078, 20⟩] ∧ s.live.Pairwise (Apart s.heap.mem) := by
  have hs : UState.Reachable (afterMalloc 8 (afterFree ⟨0x412008, 100⟩
      (afterMalloc 20 (afterMalloc 100 ⟨freshHeap, []⟩)))) :=
    (((reachable_freshHeap.malloc (by decide) (by decide +kernel)).malloc (by decide)
      (by decide +kernel)).free (by decide +kernel) (by decide +kernel)).malloc (by decide)
        (by decide +kernel)
  exact ⟨_, hs, by decide +kernel, (uheap_consistent hs).2.1⟩

/-- The first block of a program is one of no bytes. Its header ends at the top of the heap, and
`free` ends the program. -/
theorem free_of_no_bytes : ∃ s : UState, s.Reachable ∧ ∃ u ∈ s.live, u.sz = 0 ∧
    free u.addr s.heap = .halted "free: Invalid pointer %p freed (out of range)" := by
  have hs : UState.Reachable (afterMalloc 0 ⟨freshHeap, []⟩) :=
    reachable_freshHeap.malloc (by decide) (by decide +kernel)
  exact ⟨_, hs, ⟨0x412008, 0⟩, by decide +kernel, rfl, Outcome.eq_halted (by decide +kernel)⟩

/-- **Freed blocks are joined.** When the program holds no block, whatever it has done before, the
heap is empty or one free block. -/
theorem heap_coalesced {s : UState} (hs : s.Reachable) (hlive : s.live = []) :
    ∃ mhs : List ℕ, Tiles s.heap.mem s.heap.heaptop s.heap.heapbase 0 mhs ∧ mhs.length ≤ 1 ∧
      ∀ mh ∈ mhs, mhInuse s.heap.mem mh = 0 := by
  rcases hs.inv with ⟨hbase, htop, -⟩ | ⟨bs, hheap, hperm⟩
  · exact ⟨[], hbase.trans htop.symm, Nat.zero_le 1, by simp⟩
  · rw [hlive] at hperm
    have hfree : ∀ b ∈ bs, ¬ b.Used := by
      intro b hb hused
      obtain ⟨l, r, rfl⟩ := List.append_of_mem hb
      obtain ⟨sz, hsz⟩ := Option.isSome_iff_exists.mp hused
      rw [owned_cut_used _ l hsz r] at hperm
      simpa using hperm.length_eq
    refine ⟨_, Laid.tiles hheap.laid hheap.top, ?_⟩
    match bs with
    | [] => exact ⟨Nat.zero_le 1, by simp [headers]⟩
    | [b] =>
      have hinuse := not_congr hheap.laid.1.inuse
      exact ⟨le_rfl, by simpa [headers, place_cons, hfree b] using hinuse⟩
    | b :: c :: bs =>
      obtain ⟨hused, -⟩ := List.isChain_cons_cons.mp hheap.apart
      exact absurd hused (by simp [hfree])

/-- A block is used and freed. -/
theorem heap_coalesced_freed : ∃ mhs : List ℕ,
    let s := afterFree ⟨0x412008, 100⟩ (afterMalloc 100 ⟨freshHeap, []⟩)
    Tiles s.heap.mem s.heap.heaptop s.heap.heapbase 0 mhs ∧ mhs.length ≤ 1 ∧
      ∀ mh ∈ mhs, mhInuse s.heap.mem mh = 0 :=
  heap_coalesced ((reachable_freshHeap.malloc (by decide) (by decide +kernel)).free
    (by decide +kernel) (by decide +kernel)) (by decide +kernel)

end Os161.Malloc
