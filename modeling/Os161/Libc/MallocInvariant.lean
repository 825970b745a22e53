import Os161.Common.Tiling
import Os161.Libc.Malloc

/-!
# The user heap invariant

`Heap s bs` says that the headers in memory describe the blocks `bs`, which fill the heap from its
base to its top, and that no two neighbours are both free. A block carries the size that was asked
for while it is in use, so the blocks that the program holds can be read off `bs` (`owned`), and it
carries the proof that it is large enough.

Each function of the allocator changes `bs` in one place: `malloc` cuts a free block in two or adds
a block at the top, `free` joins a block with its neighbours.
-/

namespace Os161.Malloc

open Prog Tiling

/-! ## Blocks and headers -/

/-- A block: its length with the header, and the size asked for while it is in use. -/
structure Block where
  len : ℕ
  owner : Option ℕ
  aligned : len % 8 = 0
  header : 8 ≤ len
  fits : ∀ sz ∈ owner, sz + 8 ≤ len

/-- A free block. -/
def Block.unused (len : ℕ) (aligned : len % 8 = 0) (header : 8 ≤ len) : Block where
  len := len
  owner := none
  aligned := aligned
  header := header
  fits := fun _ h => absurd h (by simp)

/-- The block is in use. -/
def Block.Used (b : Block) : Prop := b.owner.isSome = true

/-- The header at `h` describes the block `b`, and the block below has the length `p`. -/
structure Header (mem : ℕ → ℕ) (h p : ℕ) (b : Block) : Prop where
  ok : mOk mem h
  prev : mPrevoff mem h = p
  next : mNextoff mem h = b.len
  inuse : mhInuse mem h ≠ 0 ↔ b.Used

/-- The headers from `a` on describe the blocks `bs`. -/
abbrev Laid (mem : ℕ → ℕ) (a p : ℕ) (bs : List Block) : Prop :=
  Tagged Block.len (Header mem) a p bs

section Frame

variable {mem mem' : ℕ → ℕ} {a h p : ℕ} {b : Block} {bs : List Block}

/-- A header is two words. -/
theorem Header.congr (hh : Header mem h p b) (h0 : mem' h = mem h)
    (h1 : mem' (h + 4) = mem (h + 4)) : Header mem' h p b := by
  obtain ⟨ok, prev, next, inuse⟩ := hh
  refine ⟨?_, ?_, ?_, ?_⟩
  · simpa only [mOk, mhMagic1, mhMagic2, h0, h1] using ok
  · simpa only [mPrevoff, mhPrevblock, h0] using prev
  · simpa only [mNextoff, mhNextblock, h1] using next
  · simpa only [mhInuse, h1] using inuse

/-- Headers lie inside their blocks. -/
theorem Laid.congr (hl : Laid mem a p bs)
    (hmem : ∀ x, a ≤ x → x < a + span Block.len bs → mem' x = mem x) : Laid mem' a p bs := by
  refine Tagged.congr hl fun h q b hmem' hh => ?_
  have hrange := range_of_mem_place hmem'
  have hlen := b.header
  exact hh.congr (hmem h (by omega) (by omega)) (hmem (h + 4) (by omega) (by omega))

/-- The first header with another length below. -/
theorem Header.setPrev (hh : Header mem h p b) {v : ℕ} (hv : v < 536870912)
    (h0 : mem' h = setUpper (mem h) v) (h1 : mem' (h + 4) = mem (h + 4)) :
    Header mem' h (v * 8) b := by
  obtain ⟨⟨ok1, ok2⟩, -, next, inuse⟩ := hh
  refine ⟨⟨?_, ?_⟩, ?_, ?_, ?_⟩
  · simp only [mhMagic1, h0, setUpper] at ok1 ⊢
    omega
  · simpa only [mhMagic2, h1] using ok2
  · simp only [mPrevoff, mhPrevblock, h0, setUpper, mblocksize]
    omega
  · simpa only [mNextoff, mhNextblock, h1] using next
  · simpa only [mhInuse, h1] using inuse

/-- The header with another length. -/
theorem Header.setNext (hh : Header mem h p b) {v : ℕ} (hv : v < 536870912) {c : Block}
    (hlen : c.len = v * 8) (hused : c.Used ↔ b.Used) (h0 : mem' h = mem h)
    (h1 : mem' (h + 4) = setUpper (mem (h + 4)) v) : Header mem' h p c := by
  obtain ⟨⟨ok1, ok2⟩, prev, -, inuse⟩ := hh
  refine ⟨⟨?_, ?_⟩, ?_, ?_, ?_⟩
  · simpa only [mhMagic1, h0] using ok1
  · simp only [mhMagic2, h1, setUpper] at ok2 ⊢
    omega
  · simpa only [mPrevoff, mhPrevblock, h0] using prev
  · simp only [mNextoff, mhNextblock, h1, setUpper, mblocksize, hlen]
    omega
  · rw [hused, ← inuse]
    simp only [mhInuse, h1, setUpper]
    omega

/-- The header with another mark. -/
theorem Header.setInuse (hh : Header mem h p b) {v : ℕ} {c : Block} (hlen : c.len = b.len)
    (hused : c.Used ↔ v % 2 ≠ 0) (h0 : mem' h = mem h)
    (h1 : mem' (h + 4) = setMiddle (mem (h + 4)) v) : Header mem' h p c := by
  obtain ⟨⟨ok1, ok2⟩, prev, next, -⟩ := hh
  refine ⟨⟨?_, ?_⟩, ?_, ?_, ?_⟩
  · simpa only [mhMagic1, h0] using ok1
  · simp only [mhMagic2, h1, setMiddle] at ok2 ⊢
    omega
  · simpa only [mPrevoff, mhPrevblock, h0] using prev
  · rw [hlen, ← next]
    simp only [mNextoff, mhNextblock, h1, setMiddle, mblocksize]
    omega
  · rw [hused]
    simp only [mhInuse, h1, setMiddle]
    omega

/-- `M_SIZE`, when the length is a 32-bit number. -/
theorem Header.size (hh : Header mem h p b) (hlen : b.len < 4294967296) :
    mSize mem h = b.len - 8 := by
  have hheader := b.header
  rw [mSize, hh.next, mblocksize]
  unfold u32
  omega

/-- The headers below a block, its own, and those above it. -/
theorem laid_cut {l r : List Block} : Laid mem a p (l ++ b :: r) ↔ Laid mem a p l ∧
    Header mem (a + span Block.len l) (lastLen Block.len p l) b ∧
    Laid mem (a + span Block.len l + b.len) b.len r := by
  simp only [Laid, tagged_append, tagged_cons]

end Frame

/-! ## Parts of the programs -/

variable {s : Uheap} {a p : ℕ} {b c : Block} {l r : List Block}

/-- `t` is `s` with memory changed between `lo` and `hi` only. -/
def WritesIn (s t : Uheap) (lo hi : ℕ) : Prop :=
  ∃ mem, t = { s with mem := mem } ∧ ∀ x, x < lo ∨ hi ≤ x → mem x = s.mem x

theorem WritesIn.store {t : Uheap} {lo hi x : ℕ} (hw : WritesIn s t lo hi) (hlo : lo ≤ x)
    (hhi : x < hi) (v : ℕ) : WritesIn s { t with mem := Function.update t.mem x v } lo hi := by
  obtain ⟨mem, rfl, hframe⟩ := hw
  refine ⟨_, rfl, fun y hy => ?_⟩
  rw [Function.update_of_ne (by omega)]
  exact hframe y hy

theorem mallocDeadbeef_spec (ptr size : ℕ) :
    Meets (mallocDeadbeef ptr size) (fun _ t => WritesIn s t ptr (ptr + size))
      (fun _ _ => False) s := by
  refine Meets.forRange (fun _ t => WritesIn s t ptr (ptr + size)) ⟨_, rfl, fun _ _ => rfl⟩ ?_
  intro i t _ hi hw
  simp only [Malloc.store, meets_modify]
  exact hw.store (by omega) (by omega) _

/-- Telling the block at `e`, unless `e` is the top of the heap, how long the block below is. -/
theorem setPrevAbove_spec {e q v : ℕ} (hr : Laid s.mem e q r)
    (htop : s.heaptop = e + span Block.len r) (hv : v < 536870912) :
    Meets (setPrevAbove e v)
      (fun _ t => ∃ mem, t = { s with mem := mem } ∧ Laid mem e (v * 8) r ∧
        ∀ x < e, mem x = s.mem x)
      (fun _ _ => False) s := by
  rw [setPrevAbove, meets_bind, meets_get, meets_ite]
  refine ⟨fun hne => ?_, fun heq => ?_⟩
  · simp only [setPrevblock, setField, store, meets_bind, meets_get, meets_modify]
    refine ⟨_, rfl, ?_, fun x hx => Function.update_of_ne (by omega) _ _⟩
    cases r with
    | nil => exact absurd htop.symm hne
    | cons c r =>
      have hheader := c.header
      refine ⟨hr.1.setPrev hv (Function.update_self _ _ _) (Function.update_of_ne (by omega) _ _), ?_⟩
      exact Laid.congr hr.2 fun x hx _ => Function.update_of_ne (by omega) _ _
  · rw [meets_pure]
    cases r with
    | nil => exact ⟨s.mem, rfl, trivial, fun _ _ => rfl⟩
    | cons c r =>
      have hheader := c.header
      rw [span_cons] at htop
      omega

/-- Two free neighbours as one block. -/
def Block.merge (b c : Block) : Block :=
  Block.unused (b.len + c.len) (by have := b.aligned; have := c.aligned; omega)
    (by have := b.header; omega)

/-- `__malloc_trymerge` joins two neighbours that are both free. -/
theorem mallocTrymerge_spec {h : ℕ} (hl : Laid s.mem a p (l ++ b :: c :: r))
    (htop : s.heaptop = a + span Block.len (l ++ b :: c :: r)) (hbound : s.heaptop < 4294967296)
    (hh : h = a + span Block.len l) :
    Meets (mallocTrymerge h (h + b.len))
      (fun _ t => ((b.Used ∨ c.Used) ∧ t = s) ∨ (¬ b.Used ∧ ¬ c.Used ∧
        ∃ mem, t = { s with mem := mem } ∧ Laid mem a p (l ++ b.merge c :: r)))
      (fun _ _ => False) s := by
  obtain ⟨hlow, hb, hc, hr⟩ := laid_cut.mp hl
  rw [← hh] at hb hc hr
  simp only [span_append, span_cons] at htop
  have hbl := b.header
  have hcl := c.header
  have hba := b.aligned
  have hca := c.aligned
  have hbsize := hb.size (by omega)
  have hcsize := hc.size (by omega)
  have hbnext := hb.next
  have hcprev := hc.prev
  simp only [mNextoff, mPrevoff, mblocksize] at hbnext hcprev
  simp only [mallocTrymerge, meets_bind, meets_get, meets_require, meets_ite, meets_pure]
  refine ⟨by omega, fun hused => ?_, fun hfree => ?_⟩
  · rw [hb.inuse, hc.inuse] at hused
    exact .inl ⟨hused, trivial⟩
  rw [hb.inuse, hc.inuse, not_or] at hfree
  have hv : mMkfield (u32 (mblocksize + mSize s.mem h + mblocksize + mSize s.mem (h + b.len))) =
      (b.len + c.len) / 8 := by
    rw [hbsize, hcsize]
    unfold mMkfield mblocksize u32
    omega
  rw [hv, hc.next]
  simp only [setNextblock, setField, store, meets_bind, meets_get, meets_modify]
  -- the length of the lower block grows, and the block above learns of it
  generalize hm₁ : Function.update s.mem (h + 4) (setUpper (s.mem (h + 4)) ((b.len + c.len) / 8)) = m₁
  have hsame : ∀ x, x ≠ h + 4 → m₁ x = s.mem x := fun x hx => by
    rw [← hm₁, Function.update_of_ne hx]
  have hb₁ : Header m₁ h (lastLen Block.len p l) (b.merge c) := by
    refine hb.setNext (v := (b.len + c.len) / 8) (by omega) ?_ ?_ (hsame h (by omega)) ?_
    · simp only [Block.merge, Block.unused]
      omega
    · exact iff_of_false (by simp [Block.Used, Block.merge, Block.unused]) hfree.1
    · rw [← hm₁, Function.update_self]
  have hr₁ : Laid m₁ (h + b.len + c.len) c.len r := Laid.congr hr fun x hx _ => hsame x (by omega)
  have hnext : mhNextblock m₁ h = (b.len + c.len) / 8 := by
    have := hb₁.next
    simp only [mNextoff, mblocksize, Block.merge, Block.unused] at this
    omega
  rw [hnext]
  refine (setPrevAbove_spec (s := { s with mem := m₁ }) hr₁ (by simp only; omega) (by omega)).imp ?_
  rintro _ _ ⟨m₂, rfl, hr₂, hlow₂⟩
  dsimp only at hlow₂
  refine (mallocDeadbeef_spec _ _).imp ?_
  rintro _ _ ⟨m₃, rfl, hframe⟩
  simp only [mblocksize] at hframe
  refine .inr ⟨hfree.1, hfree.2, m₃, rfl, ?_⟩
  have hbelow : ∀ x < h + b.len, m₃ x = m₁ x := fun x hx =>
    (hframe x (by omega)).trans (hlow₂ x (by omega))
  rw [laid_cut, ← hh]
  refine ⟨Laid.congr hlow fun x _ hx => ?_, ?_, ?_⟩
  · rw [hbelow x (by omega), hsame x (by omega)]
  · exact hb₁.congr (hbelow h (by omega)) (hbelow (h + 4) (by omega))
  · have hlen : (b.merge c).len = b.len + c.len := rfl
    rw [show (b.len + c.len) / 8 * 8 = b.len + c.len by omega] at hr₂
    rw [hlen, ← Nat.add_assoc]
    exact Laid.congr hr₂ fun x hx _ => hframe x (by omega)

/-- Marking a block. -/
theorem setInuse_spec {h v : ℕ} (hl : Laid s.mem a p (l ++ b :: r)) (hh : h = a + span Block.len l)
    (hlen : c.len = b.len) (hused : c.Used ↔ v % 2 ≠ 0) :
    Meets (setInuse h v)
      (fun _ t => ∃ mem, t = { s with mem := mem } ∧ Laid mem a p (l ++ c :: r) ∧
        Header mem h (lastLen Block.len p l) c)
      (fun _ _ => False) s := by
  obtain ⟨hlow, hb, hr⟩ := laid_cut.mp hl
  rw [← hh] at hb hr
  have hbl := b.header
  simp only [setInuse, setField, store, meets_bind, meets_get, meets_modify]
  have hsame : ∀ v x, x ≠ h + 4 → Function.update s.mem (h + 4) v x = s.mem x :=
    fun v x hx => Function.update_of_ne hx _ _
  have hc := hb.setInuse hlen hused (hsame (setMiddle (s.mem (h + 4)) v) h (by omega))
    (Function.update_self _ _ _)
  refine ⟨_, rfl, ?_, hc⟩
  rw [laid_cut, ← hh]
  refine ⟨Laid.congr hlow fun x _ hx => hsame _ x (by omega), hc, ?_⟩
  rw [hlen]
  exact Laid.congr hr fun x hx _ => hsame _ x (by omega)

/-- A header that has been filled in, and nothing else has changed. -/
def Filled (s t : Uheap) (h p : ℕ) (b : Block) : Prop :=
  ∃ mem, t = { s with mem := mem } ∧ Header mem h p b ∧
    ∀ x, x ≠ h → x ≠ h + 4 → mem x = s.mem x

/-- The fields of a header, from its two words. -/
theorem Header.of_words {mem : ℕ → ℕ} {h prev next : ℕ} (hprev : prev < 536870912)
    (hnext : next < 536870912) (hlen : c.len = next * 8) (pad inuse : ℕ) (hpad : pad < 2)
    (hinuse : inuse < 2) (hused : c.Used ↔ inuse ≠ 0) (h0 : mem h = prev * 8 + pad * 4 + 2)
    (h1 : mem (h + 4) = next * 8 + inuse * 4 + 2) : Header mem h (prev * 8) c := by
  refine ⟨⟨?_, ?_⟩, ?_, ?_, ?_⟩
  · simp only [mhMagic1, h0, mmagic]
    omega
  · simp only [mhMagic2, h1, mmagic]
    omega
  · simp only [mPrevoff, mhPrevblock, h0, mblocksize]
    omega
  · simp only [mNextoff, mhNextblock, h1, mblocksize, hlen]
    omega
  · rw [hused]
    simp only [mhInuse, h1]
    omega

theorem initSplit_spec {h prev next : ℕ} (hprev : prev < 536870912) (hnext : next < 536870912)
    (hlen : c.len = next * 8) (hused : ¬ c.Used) :
    Meets (initSplit h prev next) (fun _ t => Filled s t h (prev * 8) c) (fun _ _ => False) s := by
  simp only [initSplit, setPrevblock, setPad, setMagic1, setNextblock, setInuse, setMagic2, setField,
    store, meets_bind, meets_get, meets_modify]
  refine ⟨_, rfl, ?_, fun x hx hx' => ?_⟩
  · refine Header.of_words hprev hnext hlen 0 0 (by omega) (by omega)
      (iff_of_false hused (by omega)) ?_ ?_
    · simp [setUpper, setMiddle, setLower, mmagic]
      omega
    · simp [setUpper, setMiddle, setLower, mmagic]
      omega
  · simp [hx, hx']

theorem initTop_spec {h prev next : ℕ} (hprev : prev < 536870912) (hnext : next < 536870912)
    (hlen : c.len = next * 8) (hused : c.Used) :
    Meets (initTop h prev next) (fun _ t => Filled s t h (prev * 8) c) (fun _ _ => False) s := by
  simp only [initTop, setPrevblock, setPad, setMagic1, setNextblock, setInuse, setMagic2, setField,
    store, meets_bind, meets_get, meets_modify]
  refine ⟨_, rfl, ?_, fun x hx hx' => ?_⟩
  · refine Header.of_words hprev hnext hlen 0 1 (by omega) (by omega)
      (iff_of_true hused (by omega)) ?_ ?_
    · simp [setUpper, setMiddle, setLower, mmagic]
      omega
    · simp [setUpper, setMiddle, setLower, mmagic]
      omega
  · simp [hx, hx']

/-- The two pieces of a free block. -/
theorem mallocSplit_spec {h size : ℕ} (hl : Laid s.mem a p (l ++ b :: r))
    (htop : s.heaptop = a + span Block.len (l ++ b :: r)) (hbound : s.heaptop < 4294967296)
    (hh : h = a + span Block.len l) (hfree : ¬ b.Used) (hsize : size % 8 = 0)
    (hfits : size + 8 ≤ b.len) :
    Meets (mallocSplit h size)
      (fun _ t => t = s ∨ ∃ (c d : Block) (mem : ℕ → ℕ), ¬ d.Used ∧ c.len = size + 8 ∧
        c.len + d.len = b.len ∧ ¬ c.Used ∧ t = { s with mem := mem } ∧ Laid mem a p (l ++ c :: d :: r))
      (fun _ _ => False) s := by
  obtain ⟨hlow, hb, hr⟩ := laid_cut.mp hl
  rw [← hh] at hb hr
  simp only [span_append, span_cons] at htop
  have hbl := b.header
  have hba := b.aligned
  have hbsize := hb.size (by omega)
  simp only [mallocSplit, meets_bind, meets_get, meets_require, meets_ite, meets_pure]
  refine ⟨hsize, fun _ => .inl trivial, fun hroom => ?_⟩
  have hroom' : size + 24 ≤ b.len := by
    rw [hbsize] at hroom
    unfold u32 mblocksize at hroom
    omega
  have hlow8 : mMkfield (u32 (size + mblocksize)) = (size + 8) / 8 := by
    unfold mMkfield mblocksize u32
    omega
  have hhigh8 : mMkfield (u32 (mSize s.mem h - size)) = (b.len - (size + 8)) / 8 := by
    rw [hbsize]
    unfold mMkfield mblocksize u32
    omega
  let c := Block.unused (size + 8) (by omega) (by omega)
  let d := Block.unused (b.len - (size + 8)) (by omega) (by omega)
  have hc : ¬ c.Used := by simp [c, Block.Used, Block.unused]
  have hd : ¬ d.Used := by simp [d, Block.Used, Block.unused]
  have hclen : c.len = size + 8 := rfl
  have hdlen : d.len = b.len - (size + 8) := rfl
  rw [hb.next, hlow8, hhigh8]
  simp only [setNextblock, setField, store, meets_bind, meets_get, meets_modify]
  -- the lower piece
  generalize hm₁ : Function.update s.mem (h + 4) (setUpper (s.mem (h + 4)) ((size + 8) / 8)) = m₁
  have hsame : ∀ x, x ≠ h + 4 → m₁ x = s.mem x := fun x hx => by
    rw [← hm₁, Function.update_of_ne hx]
  have hc₁ : Header m₁ h (lastLen Block.len p l) c :=
    hb.setNext (v := (size + 8) / 8) (by omega) (by omega) (iff_of_false hc hfree)
      (hsame h (by omega)) (by rw [← hm₁, Function.update_self])
  rw [hc₁.next, hclen]
  refine ⟨by omega, (initSplit_spec (s := { s with mem := m₁ }) (c := d) (by omega) (by omega)
    (by omega) hd).imp ?_⟩
  -- the upper piece
  rintro _ _ ⟨m₂, rfl, hd₂, hsame₂⟩
  dsimp only at hsame₂
  have hr₂ : Laid m₂ (h + b.len) b.len r := Laid.congr hr fun x hx _ => by
    rw [hsame₂ x (by omega) (by omega), hsame x (by omega)]
  have hnext : mhNextblock m₂ (h + (size + 8)) = d.len / 8 := by
    have := hd₂.next
    simp only [mNextoff, mblocksize] at this
    omega
  rw [hnext]
  refine (setPrevAbove_spec (s := { s with mem := m₂ }) hr₂ (by simp only; omega) (by omega)).imp ?_
  rintro _ _ ⟨m₃, rfl, hr₃, hlow₃⟩
  dsimp only at hlow₃
  refine .inr ⟨c, d, m₃, hd, hclen, by omega, hc, rfl, ?_⟩
  have hbelow : ∀ x < h + (size + 8), m₃ x = m₁ x := fun x hx => by
    rw [hlow₃ x (by omega), hsame₂ x (by omega) (by omega)]
  rw [laid_cut, ← hh]
  refine ⟨Laid.congr hlow fun x _ hx => ?_, ?_, ?_, ?_⟩
  · rw [hbelow x (by omega), hsame x (by omega)]
  · exact hc₁.congr (hbelow h (by omega)) (hbelow (h + 4) (by omega))
  · rw [hclen]
    rw [show (size + 8) / 8 * 8 = size + 8 by omega] at hd₂
    exact hd₂.congr (hlow₃ _ (by omega)) (hlow₃ _ (by omega))
  · rw [show d.len / 8 * 8 = d.len by omega] at hr₃
    rwa [show h + c.len + d.len = h + b.len by omega]

/-! ## The search -/

/-- The search checks every header and stops at the first free block that is large enough. -/
theorem findFit_spec {size fuel i rightprevblock : ℕ} {bs : List Block}
    (hl : Laid s.mem i (rightprevblock * 8) bs) (htop : s.heaptop = i + span Block.len bs)
    (hbound : s.heaptop < 4294967296) (hfuel : span Block.len bs < fuel) :
    Meets (findFit size fuel i rightprevblock)
      (fun res t => t = s ∧ match res with
        | .inl mh => ∃ l b r, bs = l ++ b :: r ∧ mh = i + span Block.len l ∧ ¬ b.Used ∧
            size + 8 ≤ b.len
        | .inr (j, prev) => j = s.heaptop ∧
            prev * 8 = lastLen Block.len (rightprevblock * 8) bs ∧
            ∀ b ∈ bs, ¬ b.Used → b.len < size + 8)
      (fun _ _ => False) s := by
  induction bs generalizing fuel i rightprevblock with
  | nil =>
    obtain ⟨fuel, rfl⟩ : ∃ n, fuel = n + 1 := ⟨fuel - 1, by omega⟩
    simp only [span_nil, Nat.add_zero] at htop
    simp only [findFit, meets_bind, meets_get, htop, lt_irrefl, if_false, meets_pure]
    exact ⟨trivial, trivial, rfl, by simp⟩
  | cons b bs ih =>
    obtain ⟨hb, hbs⟩ := hl
    obtain ⟨fuel, rfl⟩ : ∃ n, fuel = n + 1 := ⟨fuel - 1, by omega⟩
    simp only [span_cons] at htop hfuel
    have hbl := b.header
    have hba := b.aligned
    have hbsize := hb.size (by omega)
    have hbnext := hb.next
    have hbprev := hb.prev
    simp only [mNextoff, mPrevoff, mblocksize] at hbnext hbprev
    rw [findFit, meets_bind, meets_get, if_pos (by omega)]
    simp only [meets_bind, meets_require, meets_ite, meets_pure]
    refine ⟨hb.ok, by omega, fun hskip => ?_, fun hfit => ?_⟩
    · have hbs' : Laid s.mem (i + b.len) (mhNextblock s.mem i * 8) bs := by
        rw [hbnext]
        exact hbs
      rw [hb.next]
      refine (ih hbs' (by omega) (by omega)).imp ?_
      rintro res t ⟨rfl, hres⟩
      refine ⟨rfl, ?_⟩
      cases res with
      | inl mh =>
        obtain ⟨l, c, r, rfl, rfl, hfree, hsize⟩ := hres
        exact ⟨b :: l, c, r, rfl, by rw [span_cons, Nat.add_assoc], hfree, hsize⟩
      | inr end_ =>
        obtain ⟨hend, hprev, hnone⟩ := hres
        rw [hbnext] at hprev
        rw [hb.inuse, hbsize] at hskip
        refine ⟨hend, hprev, fun c hc hfree => ?_⟩
        rcases List.mem_cons.mp hc with rfl | hc
        · have := hskip.resolve_left hfree
          omega
        · exact hnone c hc hfree
    · rw [hb.inuse, hbsize, not_or] at hfit
      exact ⟨trivial, [], b, bs, rfl, by simp, hfit.1, by omega⟩

/-! ## The invariant -/

/-- A block that the program holds: the address of its data and the size that was asked for. -/
structure UBlock where
  addr : ℕ
  sz : ℕ
deriving DecidableEq

/-- The blocks in use. -/
def owned (a : ℕ) (bs : List Block) : List UBlock :=
  (place Block.len a bs).filterMap fun x => x.2.owner.map fun sz => ⟨x.1 + 8, sz⟩

theorem owned_append (a : ℕ) (l r : List Block) :
    owned a (l ++ r) = owned a l ++ owned (a + span Block.len l) r := by
  simp only [owned, place_append, List.filterMap_append]

/-- A free block belongs to nobody. -/
theorem owned_cut_free (a : ℕ) (l : List Block) {b : Block} (hb : ¬ b.Used) (r : List Block) :
    owned a (l ++ b :: r) = owned a l ++ owned (a + span Block.len l + b.len) r := by
  have hnone : b.owner = none := by simpa [Block.Used] using hb
  rw [owned_append]
  simp only [owned, place_cons, List.filterMap_cons, hnone, Option.map_none]

theorem owned_cut_used (a : ℕ) (l : List Block) {b : Block} {sz : ℕ} (hb : b.owner = some sz)
    (r : List Block) : owned a (l ++ b :: r) =
      owned a l ++ ⟨a + span Block.len l + 8, sz⟩ :: owned (a + span Block.len l + b.len) r := by
  rw [owned_append]
  simp only [owned, place_cons, List.filterMap_cons, hb, Option.map_some]

/-- No two neighbours are both free. -/
abbrev Separated (bs : List Block) : Prop := bs.IsChain fun b c => b.Used ∨ c.Used

/-- The headers in memory describe the blocks `bs`, which fill the heap. -/
structure Heap (s : Uheap) (bs : List Block) : Prop where
  laid : Laid s.mem s.heapbase 0 bs
  top : s.heaptop = s.heapbase + span Block.len bs
  brk : s.brk = s.heaptop
  bound : s.heaptop < 4294967296
  base : 0 < s.heapbase
  aligned : s.heapbase % 8 = 0
  apart : Separated bs

/-- The program holds the blocks `live`. Before the first call of `malloc` there is no heap. -/
def Inv (s : Uheap) (live : List UBlock) : Prop :=
  (s.heapbase = 0 ∧ s.heaptop = 0 ∧ 0 < s.brk ∧ s.brk < 4294967296 ∧ live = []) ∨
    ∃ bs, Heap s bs ∧ live.Perm (owned s.heapbase bs)

/-- The messages of `__malloc_init` when the first calls of `sbrk` fail. -/
def initFailures : List String :=
  ["malloc: initial sbrk failed", "malloc: sbrk failed aligning heap base"]

/-- `sbrk` fails or extends the heap at its end. -/
theorem sbrk_spec (amount : ℕ) :
    Meets (sbrk amount) (fun res t => match res with
      | none => t = { s with nomem := s.nomem.tail } ∧
          (s.nomem = [] → 4294967296 ≤ s.brk + amount)
      | some x => x = s.brk ∧ s.brk + amount < 4294967296 ∧
          t = { s with brk := s.brk + amount, nomem := s.nomem.tail })
      (fun _ _ => False) s := by
  simp only [sbrk, meets_bind, meets_get, meets_modify, meets_ite, meets_pure]
  refine ⟨fun hfail => ⟨trivial, fun hnil => ?_⟩, fun hok => ?_⟩
  · rw [hnil] at hfail
    exact hfail.resolve_left (by decide)
  · rw [not_or, not_le] at hok
    exact ⟨trivial, hok.2, trivial⟩

/-- `__malloc_init` makes an empty heap at the next multiple of the block size. -/
theorem mallocInit_spec (hbase : s.heapbase = 0) (htop : s.heaptop = 0) (hpos : 0 < s.brk)
    (hbrk : s.brk < 4294967296) :
    Meets mallocInit
      (fun _ t => Heap t [] ∧ t.brk = (s.brk + 7) / 8 * 8 ∧ (s.nomem = [] → t.nomem = []))
      (fun _ _ => False) s
      (fun msg => msg ∈ initFailures ∧ (s.nomem = [] → 4294967296 ≤ (s.brk + 7) / 8 * 8)) := by
  simp only [mallocInit, meets_bind, meets_get]
  rw [meets_require_iff]
  refine ⟨fun _ => ?_, fun hbad => absurd (by omega) hbad⟩
  refine (sbrk_spec 0).partial_of.noErr ?_
  rintro (_ | x) t ht
  · exact ⟨by simp [initFailures], fun hnil => absurd (ht.2 hnil) (by omega)⟩
  obtain ⟨rfl, -, rfl⟩ := ht
  simp only [meets_bind, meets_modify, meets_ite, meets_pure]
  rw [meets_require_iff]
  refine ⟨fun _ => ⟨fun hodd => ?_, fun heven => ?_⟩, fun hbad => absurd (by omega) hbad⟩
  · refine (sbrk_spec _).partial_of.noErr ?_
    rintro (_ | x) t ht
    · refine ⟨by simp [initFailures], fun hnil => ?_⟩
      have hroom := ht.2 (by rw [hnil]; rfl)
      simp only [mblocksize] at hodd hroom
      omega
    obtain ⟨rfl, hlt, rfl⟩ := ht
    simp only [mblocksize] at hodd hlt ⊢
    simp only [meets_bind, meets_modify]
    rw [meets_require_iff]
    refine ⟨fun _ => ⟨?_, by simp only; omega, fun hnil => by rw [hnil]; rfl⟩,
      fun hbad => absurd rfl hbad⟩
    exact {
      laid := trivial
      top := rfl
      brk := by simp only; omega
      bound := by simp only; omega
      base := by simp only; omega
      aligned := by simp only; omega
      apart := .nil }
  · simp only [mblocksize, ne_eq, not_not] at heven
    refine ⟨?_, by simp only; omega, fun hnil => by rw [hnil]; rfl⟩
    exact {
      laid := trivial
      top := rfl
      brk := rfl
      bound := hbrk
      base := hpos
      aligned := heven
      apart := .nil }

/-- A block at the top of the heap, for a request of `sz` bytes. -/
theorem mallocExpand_spec {bs : List Block} (hs : Heap s bs) {size sz rightprevblock : ℕ}
    (hsize : size % 8 = 0) (hle : size ≤ 2147483648) (hsz : sz ≤ size)
    (hprev : rightprevblock * 8 = lastLen Block.len 0 bs) :
    Meets (mallocExpand size rightprevblock)
      (fun res t => t.heapbase = s.heapbase ∧ (res = 0 ∧ Heap t bs ∨
        ∃ b, b.owner = some sz ∧ res = s.heaptop + 8 ∧ Heap t (bs ++ [b])))
      (fun _ _ => False) s := by
  have hsum : u32 (size + mblocksize) = size + 8 := by
    unfold u32 mblocksize
    omega
  simp only [mallocExpand, mallocSbrk, meets_bind, hsum]
  refine (sbrk_spec _).imp ?_
  rintro (_ | x) t ht
  · obtain ⟨rfl, -⟩ := ht
    simp only [meets_pure]
    exact ⟨trivial, .inl ⟨trivial, { hs with }⟩⟩
  obtain ⟨rfl, hlt, rfl⟩ := ht
  have htop := hs.top
  have hbrk := hs.brk
  simp only [meets_bind, meets_get, meets_require, meets_modify, meets_pure]
  refine ⟨hbrk, ?_⟩
  let b : Block := ⟨size + 8, some sz, by omega, by omega, fun sz' h => by
    obtain rfl := Option.some.inj h
    omega⟩
  have hlen : b.len = size + 8 := rfl
  have hlast : lastLen Block.len 0 bs ≤ 0 + span Block.len bs := lastLen_le
  refine (initTop_spec (c := b) (by omega) (by unfold mMkfield mblocksize; omega)
    (by unfold mMkfield mblocksize; omega) rfl).imp ?_
  rintro _ _ ⟨mem, rfl, hb, hsame⟩
  dsimp only at hsame
  refine ⟨rfl, .inr ⟨b, rfl, ?_, ?_⟩⟩
  · rw [mData, mblocksize, hbrk]
  · rw [hbrk, htop] at hb hsame
    have hbelow : Laid mem s.heapbase 0 bs :=
      Laid.congr hs.laid fun x _ hx => hsame x (by omega) (by omega)
    exact {
      laid := laid_cut.mpr ⟨hbelow, hprev ▸ hb, trivial⟩
      top := by
        simp only [span_append, span_cons, span_nil, hlen]
        omega
      brk := by simp only; omega
      bound := by simp only; omega
      base := hs.base
      aligned := hs.aligned
      apart := List.isChain_append.mpr ⟨hs.apart, .singleton b, fun c _ d hd => by
        obtain rfl := Option.some.inj hd
        exact .inr rfl⟩ }

/-! ## Neighbours -/

/-- The neighbours of a free block are in use. -/
theorem separated_free {l r : List Block} {b : Block} (hb : ¬ b.Used) :
    Separated (l ++ b :: r) ↔ Separated l ∧ Separated r ∧ (∀ c ∈ l.getLast?, c.Used) ∧
      ∀ c ∈ r.head?, c.Used := by
  simp only [Separated, List.isChain_append, List.isChain_cons, List.head?_cons, Option.mem_def,
    Option.some.injEq, hb, false_or]
  constructor
  · rintro ⟨hl, ⟨hhead, hr⟩, hlast⟩
    exact ⟨hl, hr, fun c hc => (hlast c hc b rfl).resolve_right hb, hhead⟩
  · rintro ⟨hl, hr, hlast, hhead⟩
    exact ⟨hl, ⟨hhead, hr⟩, fun c hc d _ => .inl (hlast c hc)⟩

/-- A block in use may have any neighbours. -/
theorem separated_used {l r : List Block} {b : Block} (hb : b.Used) :
    Separated (l ++ b :: r) ↔ Separated l ∧ Separated r := by
  simp only [Separated, List.isChain_append, List.isChain_cons, List.head?_cons, Option.mem_def,
    Option.some.injEq]
  constructor
  · rintro ⟨hl, ⟨-, hr⟩, -⟩
    exact ⟨hl, hr⟩
  · rintro ⟨hl, hr⟩
    refine ⟨hl, ⟨fun c _ => .inl hb, hr⟩, fun c _ d hd => ?_⟩
    exact .inr (hd ▸ hb)

end Os161.Malloc
