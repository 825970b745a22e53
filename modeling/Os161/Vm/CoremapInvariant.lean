import Os161.Common.Lists
import Os161.Vm.Coremap

/-!
# The coremap invariant

`CoremapInv base vm live` relates the coremap to the list `live` of allocations that have been
handed out and not yet returned. The free count, the `taken` flags and the `npage` fields are three
redundant records of that list: `left` is about the first, `owned` about the second and `run` about
the third. Only the entry where the marking walk ends carries the length of its run, and freed
entries keep their old `npage`, so `run` speaks of live allocations only.

`allocKpages_spec` adds an allocation to `live` and `freeKpages_spec` removes one. Neither looks at
the rest of the list, so clients can keep their own pages in it and reason about them separately.
-/

namespace Os161

open Prog

/-- An allocation of `npages` pages at the kernel address `addr`. -/
structure PageRun where
  addr : ℕ
  npages : ℕ
deriving DecidableEq

/-- The frame at the physical address `paddr` lies in the allocation. -/
def PageRun.Covers (b : PageRun) (paddr : ℕ) : Prop :=
  b.addr ≤ paddr + kseg0 ∧ paddr + kseg0 < b.addr + pageSize * b.npages

instance (b : PageRun) (paddr : ℕ) : Decidable (b.Covers paddr) :=
  inferInstanceAs (Decidable (_ ∧ _))

/-- The coremap agrees with the allocations in `live`; `base` is its lowest frame. -/
structure CoremapInv (base : ℕ) (vm : Vm) (live : List PageRun) : Prop where
  booted : vm.vmIndicator = true
  aligned : base % pageSize = 0
  bound : base + pageSize * vm.coremap.length < kseg0
  above : u32 (vm.coremapPtr - kseg0) < base
  frame : ∀ (i : ℕ) (e : CoremapEntry), vm.coremap[i]? = some e → e.phyaddr = base + pageSize * i
  left : vm.pageleft = vm.coremap.countP fun e => !e.taken
  run : ∀ b ∈ live, 0 < b.npages ∧ ∃ (i : ℕ) (e : CoremapEntry),
    b.addr = base + pageSize * i + kseg0 ∧
    i + b.npages ≤ vm.coremap.length ∧ vm.coremap[i]? = some e ∧ e.npage = b.npages
  owned : ∀ (i : ℕ) (e : CoremapEntry), vm.coremap[i]? = some e →
    live.countP (fun b => b.Covers e.phyaddr) = if e.taken then 1 else 0

variable {base : ℕ} {vm : Vm} {live live' : List PageRun}

/-- The order in which allocations are listed does not matter. -/
theorem CoremapInv.perm (h : CoremapInv base vm live) (hp : live.Perm live') :
    CoremapInv base vm live' where
  booted := h.booted
  aligned := h.aligned
  bound := h.bound
  above := h.above
  frame := h.frame
  left := h.left
  run b hb := h.run b (hp.mem_iff.mpr hb)
  owned i e he := by rw [← hp.countP_eq]; exact h.owned i e he

/-- The interrupt level plays no role. -/
theorem CoremapInv.setSpl (h : CoremapInv base vm live) (spl : ℕ) :
    CoremapInv base { vm with curspl := spl } live where
  booted := h.booted
  aligned := h.aligned
  bound := h.bound
  above := h.above
  frame := h.frame
  left := h.left
  run := h.run
  owned := h.owned

/-- `Covers` on frames of the coremap is a range of indices. -/
theorem covers_iff {i j n : ℕ} :
    (PageRun.mk (base + pageSize * i + kseg0) n).Covers (base + pageSize * j) ↔
      i ≤ j ∧ j < i + n := by
  simp only [PageRun.Covers, pageSize, kseg0]
  omega

/-! ## The scan and the marking walk -/

/-- The scan stops at the end of `npages` consecutive free entries. `free` is the state of the
entries by index; the `count` entries before `i` have been seen to be free. -/
theorem findRun_spec {npages : ℕ} (free : ℕ → Prop) {es : List CoremapEntry} {i count k : ℕ}
    (hes : ∀ (j : ℕ) (e : CoremapEntry), es[j]? = some e → (e.taken = false ↔ free (i + j)))
    (hcount : count < npages ∨ npages = 0) (hle : count ≤ i)
    (hfree : ∀ j, i - count ≤ j → j < i → free j)
    (hk : findRun npages es i count = some k) :
    0 < npages ∧ npages ≤ k + 1 ∧ k < i + es.length ∧
      ∀ j, k + 1 - npages ≤ j → j ≤ k → free j := by
  induction es generalizing i count with
  | nil => simp [findRun] at hk
  | cons e es ih =>
    have hhead : e.taken = false ↔ free i := by simpa using hes 0 e rfl
    have htail : ∀ (j : ℕ) (e' : CoremapEntry), es[j]? = some e' →
        (e'.taken = false ↔ free (i + 1 + j)) := by
      intro j e' he'
      have := hes (j + 1) e' (by simpa using he')
      rwa [show i + (j + 1) = i + 1 + j by omega] at this
    have hlen : (e :: es).length = es.length + 1 := rfl
    simp only [findRun] at hk
    split at hk
    case isTrue ht =>
      have hfree' : ∀ j, i + 1 - (count + 1) ≤ j → j < i + 1 → free j := by
        intro j hj hlt
        rcases Nat.lt_succ_iff_lt_or_eq.mp hlt with hlt | rfl
        · exact hfree j (by omega) hlt
        · exact hhead.mp ht
      split at hk
      case isTrue hn =>
        obtain rfl : i = k := Option.some.inj hk
        refine ⟨by omega, by omega, by omega, fun j hj hle => ?_⟩
        exact hfree' j (by omega) (by omega)
      case isFalse hn =>
        obtain ⟨h1, h2, h3, h4⟩ := ih htail (by omega) (by omega) hfree' hk
        exact ⟨h1, h2, by omega, h4⟩
    case isFalse ht =>
      obtain ⟨h1, h2, h3, h4⟩ :=
        ih htail (by omega) (Nat.zero_le _) (fun j hj hlt => by omega) hk
      exact ⟨h1, h2, by omega, h4⟩

/-- A scan of the whole coremap that finds something stops at the end of a free run. -/
theorem findRun_found {npages k : ℕ} {cm : List CoremapEntry}
    (hfind : findRun npages cm 0 0 = some k) :
    0 < npages ∧ npages ≤ k + 1 ∧ k < cm.length ∧
      ∀ (j : ℕ) (e : CoremapEntry), k + 1 - npages ≤ j → j ≤ k → cm[j]? = some e →
        e.taken = false := by
  have hes : ∀ (j : ℕ) (e : CoremapEntry), cm[j]? = some e →
      (e.taken = false ↔ ∀ e', cm[0 + j]? = some e' → e'.taken = false) := by
    intro j e he
    rw [Nat.zero_add]
    exact ⟨fun ht e' he' => by rwa [← Option.some.inj (he.symm.trans he')], fun hf => hf e he⟩
  obtain ⟨hn, hle, hk, hfree⟩ := findRun_spec (fun j => ∀ e, cm[j]? = some e → e.taken = false)
    hes (by omega) le_rfl (fun j _ hj => absurd hj (by omega)) hfind
  exact ⟨hn, hle, by omega, fun j e h1 h2 he => hfree j h1 h2 e he⟩

/-- The entry `e` with its `taken` flag set. -/
private def taken (e : CoremapEntry) : CoremapEntry := { e with taken := true }

/-- After its first pass the marking walk moves down `n` entries from `p` and marks them. -/
private theorem markRun_tail {n j p : ℕ} {l : List CoremapEntry} (hj : 0 < j) (hn : n ≤ p) :
    (markRun n j p l).1 = p - n ∧ ∀ k : ℕ, (markRun n j p l).2[k]? =
      (l[k]?).map fun e => if p - n ≤ k ∧ k < p then taken e else e := by
  induction n generalizing j p l with
  | zero =>
    refine ⟨rfl, fun k => ?_⟩
    have hnone : ∀ e : CoremapEntry, (if p - 0 ≤ k ∧ k < p then taken e else e) = e := by
      intro e; rw [if_neg (by omega)]
    simp only [markRun, hnone, Option.map_id']
  | succ n ih =>
    simp only [markRun, if_pos hj]
    obtain ⟨hptr, hget⟩ := ih (j := j + 1) (p := p - 1)
      (l := l.modify (p - 1) fun e => { e with taken := true }) (by omega) (by omega)
    refine ⟨by rw [hptr]; omega, fun k => ?_⟩
    rw [hget k, List.getElem?_modify_map, Option.map_map]
    congr 1
    funext e
    simp only [Function.comp_apply, taken]
    split <;> split <;> split <;> first | rfl | omega

/-- The marking walk started at `i` ends at the lowest entry of the run of `n` entries that ends at
`i`, and marks exactly that run. -/
theorem markRun_spec {n i : ℕ} {l : List CoremapEntry} (hn : 0 < n) (hi : n ≤ i + 1) :
    (markRun n 0 i l).1 = i + 1 - n ∧ ∀ k : ℕ, (markRun n 0 i l).2[k]? =
      (l[k]?).map fun e =>
        if i + 1 - n ≤ k ∧ k ≤ i then { e with taken := true } else e := by
  obtain ⟨m, rfl⟩ : ∃ m, n = m + 1 := ⟨n - 1, by omega⟩
  simp only [markRun, lt_irrefl, if_false]
  obtain ⟨hptr, hget⟩ := markRun_tail (n := m) (j := 0 + 1) (p := i)
    (l := l.modify i fun e => { e with taken := true }) (by omega) (by omega)
  refine ⟨by rw [hptr]; omega, fun k => ?_⟩
  rw [hget k, List.getElem?_modify_map, Option.map_map]
  congr 1
  funext e
  simp only [Function.comp_apply, taken]
  split <;> split <;> split <;> first | rfl | omega

/-- The marking walk keeps the length of the array. -/
theorem markRun_length (n j ptr : ℕ) (cm : List CoremapEntry) :
    (markRun n j ptr cm).2.length = cm.length := by
  induction n generalizing j ptr cm with
  | zero => rfl
  | succ n ih => simp only [markRun, ih, List.length_modify]

/-- The entries after the marking walk has ended and the length of the run has been recorded. -/
theorem granted_get {n k lo : ℕ} (l : List CoremapEntry) (hn : 0 < n) (hk : k + 1 = lo + n)
    (pid : ℤ) (q : ℕ) :
    ((markRun n 0 k l).2.modify lo fun e => { e with pid := pid, npage := n })[q]? =
      (l[q]?).map fun e => { e with
        pid := if q = lo then pid else e.pid
        taken := if lo ≤ q ∧ q < lo + n then true else e.taken
        npage := if q = lo then n else e.npage } := by
  rw [List.getElem?_modify_map, (markRun_spec hn (by omega)).2 q, Option.map_map]
  congr 1
  funext e
  simp only [Function.comp_apply]
  split <;> split <;> split <;> split <;> first | rfl | omega

/-- The marking walk leaves the frames of the entries alone. -/
theorem markRun_phyaddr {n k : ℕ} {l : List CoremapEntry} (hn : 0 < n) (hk : n ≤ k + 1) {q : ℕ}
    {e : CoremapEntry} (he : l[q]? = some e) :
    ((markRun n 0 k l).2.getD q default).phyaddr = e.phyaddr := by
  rw [List.getD_eq_getElem?_getD, (markRun_spec hn hk).2 q, he]
  simp only [Option.map_some, Option.getD_some]
  split <;> rfl

/-- Marking a run of free entries uses up as many of the free ones. -/
theorem markRun_countP {n j p : ℕ} {l : List CoremapEntry}
    (hn : if 0 < j then n ≤ p else n ≤ p + 1)
    (hfree : ∀ k : ℕ, (if 0 < j then p - n else p + 1 - n) ≤ k →
      (if 0 < j then k < p else k ≤ p) → ∃ e, l[k]? = some e ∧ e.taken = false) :
    (markRun n j p l).2.countP (fun e => !e.taken) + n = l.countP fun e => !e.taken := by
  induction n generalizing j p l with
  | zero => simp [markRun]
  | succ n ih =>
    -- `q` is the entry this pass marks
    obtain ⟨q, hq⟩ : ∃ q, q = if 0 < j then p - 1 else p := ⟨_, rfl⟩
    have hqn : n ≤ q := by split_ifs at hq hn <;> omega
    obtain ⟨e, he, hte⟩ := hfree q (by split_ifs at hq hn ⊢ <;> omega)
      (by split_ifs at hq hn ⊢ <;> omega)
    have hrec := ih (j := j + 1) (p := q)
      (l := l.modify q fun e => { e with taken := true }) (by simpa using hqn) ?_
    · have hone := List.countP_modify_of_true (p := fun e : CoremapEntry => !e.taken)
        (f := fun e => { e with taken := true }) he (by simp [hte]) (by simp)
      simp only [markRun, ← hq]
      omega
    · intro k hk hlt
      simp only [Nat.succ_pos, if_true] at hk hlt
      obtain ⟨e', he', hte'⟩ := hfree k (by split_ifs at hq hn ⊢ <;> omega)
        (by split_ifs at hq hn ⊢ <;> omega)
      refine ⟨e', ?_, hte'⟩
      rw [List.getElem?_modify_map, he', Option.map_some, if_neg (by omega)]

/-! ## Allocation -/

/-- No live allocation covers a free frame. -/
theorem CoremapInv.not_covers_of_free (h : CoremapInv base vm live) {i : ℕ} {e : CoremapEntry}
    (he : vm.coremap[i]? = some e) (hfree : e.taken = false) :
    ∀ b ∈ live, ¬ b.Covers e.phyaddr := by
  have hzero : live.countP (fun b => b.Covers e.phyaddr) = 0 := by
    rw [h.owned i e he, hfree]; rfl
  intro b hb hcov
  exact absurd (decide_eq_true hcov) (List.countP_eq_zero.mp hzero b hb)

/-- Marking the free run of `n` entries from `lo` on, and recording its length in its lowest entry,
adds it to the live allocations. -/
theorem CoremapInv.insert (h : CoremapInv base vm live) {vm' : Vm} {lo n : ℕ} (hn : 0 < n)
    (hlen : lo + n ≤ vm.coremap.length)
    (hfree : ∀ (k : ℕ) (e : CoremapEntry), lo ≤ k → k < lo + n → vm.coremap[k]? = some e →
      e.taken = false)
    (hboot : vm'.vmIndicator = vm.vmIndicator) (hptr : vm'.coremapPtr = vm.coremapPtr)
    (hlen' : vm'.coremap.length = vm.coremap.length)
    (hget : ∀ (k : ℕ) (e' : CoremapEntry), vm'.coremap[k]? = some e' →
      ∃ e, vm.coremap[k]? = some e ∧ e'.phyaddr = e.phyaddr ∧
        (e'.taken = if lo ≤ k ∧ k < lo + n then true else e.taken) ∧
        (e'.npage = if k = lo then n else e.npage))
    (hleft : vm'.pageleft = vm'.coremap.countP fun e => !e.taken) :
    CoremapInv base vm' (⟨base + pageSize * lo + kseg0, n⟩ :: live) where
  booted := hboot.trans h.booted
  aligned := h.aligned
  bound := by rw [hlen']; exact h.bound
  above := by rw [hptr]; exact h.above
  frame i e' he' := by
    obtain ⟨e, he, hphy, -, -⟩ := hget i e' he'
    rw [hphy, h.frame i e he]
  left := hleft
  run b hb := by
    have hentry : ∀ k, k < vm.coremap.length → ∃ e', vm'.coremap[k]? = some e' := fun k hk =>
      ⟨_, List.getElem?_eq_getElem (by rw [hlen']; exact hk)⟩
    rcases List.mem_cons.mp hb with rfl | hold
    · obtain ⟨e', he'⟩ := hentry lo (by omega)
      obtain ⟨e, -, -, -, hnp⟩ := hget lo e' he'
      exact ⟨hn, lo, e', rfl, by rw [hlen']; exact hlen, he', by rw [hnp, if_pos rfl]⟩
    · obtain ⟨hpos, i, e, haddr, hle, he, hnp⟩ := h.run b hold
      obtain ⟨e', he'⟩ := hentry i (by omega)
      obtain ⟨e₀, he₀, -, -, hnp'⟩ := hget i e' he'
      obtain rfl : e = e₀ := Option.some.inj (he.symm.trans he₀)
      -- the start of an older allocation is taken, so the new run does not begin there
      have hne : i ≠ lo := by
        rintro rfl
        have hf := hfree i e le_rfl (by omega) he
        refine h.not_covers_of_free he hf b hold ?_
        rw [h.frame i e he, show b = ⟨base + pageSize * i + kseg0, b.npages⟩ by
          rw [← haddr], covers_iff]
        omega
      exact ⟨hpos, i, e', haddr, by omega, he', by rw [hnp', if_neg hne, hnp]⟩
  owned i e' he' := by
    obtain ⟨e, he, hphy, htk, -⟩ := hget i e' he'
    have hold := h.owned i e he
    have hcov : (PageRun.mk (base + pageSize * lo + kseg0) n).Covers e.phyaddr ↔
        lo ≤ i ∧ i < lo + n := by
      rw [h.frame i e he]; exact covers_iff
    rw [List.countP_cons, hphy, hold, htk]
    simp only [decide_eq_true_eq, hcov]
    by_cases hin : lo ≤ i ∧ i < lo + n
    · simp only [if_pos hin, hfree i e hin.1 hin.2 he, Bool.false_eq_true, if_false, if_true]
    · simp only [if_neg hin, Nat.add_zero]

/-- What `getppages` does: it fails and changes no entry if the request exceeds the free count or
the scan finds no run, and otherwise marks the run that ends where the scan stopped, which becomes
a live allocation. -/
theorem getppages_scan (h : CoremapInv base vm live) (npages : ℕ) :
    Meets (getppages npages)
      (fun a vm' =>
        ((vm.pageleft < npages ∨ findRun npages vm.coremap 0 0 = none) ∧
          a = 0 ∧ vm'.coremap = vm.coremap ∧ CoremapInv base vm' live) ∨
        ∃ lo, 0 < npages ∧ lo + npages ≤ vm.coremap.length ∧
          findRun npages vm.coremap 0 0 = some (lo + npages - 1) ∧ a = base + pageSize * lo ∧
          (∀ k : ℕ, (vm'.coremap[k]?).map CoremapEntry.taken = (vm.coremap[k]?).map fun e =>
            if lo ≤ k ∧ k < lo + npages then true else e.taken) ∧
          CoremapInv base vm' (⟨a + kseg0, npages⟩ :: live))
      (fun _ _ => False) vm := by
  unfold getppages splhigh
  simp only [splx, meets_bind, meets_gets, meets_modify, meets_pure, meets_get, meets_ite]
  refine ⟨fun hoff => absurd (h.booted.symm.trans hoff) (by decide), fun _ =>
    ⟨fun hgt => Or.inl ⟨Or.inl hgt, trivial, trivial, h.setSpl _⟩, fun hle => ?_⟩⟩
  cases hfind : findRun npages vm.coremap 0 0 with
  | none => exact Or.inl ⟨Or.inr rfl, rfl, rfl, h.setSpl _⟩
  | some k =>
    obtain ⟨hn, hle', hk, hfree⟩ := findRun_found hfind
    have hptr := (markRun_spec (l := vm.coremap) hn hle').1
    have hlen := markRun_length npages 0 k vm.coremap
    have hcount := markRun_countP (n := npages) (j := 0) (p := k) (l := vm.coremap)
      (by simpa using hle') (fun q hq hqk => by
        simp only [lt_irrefl, if_false] at hq hqk
        have hqlen : q < vm.coremap.length := by omega
        exact ⟨_, List.getElem?_eq_getElem hqlen,
          hfree q _ hq hqk (List.getElem?_eq_getElem hqlen)⟩)
    obtain ⟨lo, hlo⟩ : ∃ lo, k + 1 = lo + npages := ⟨k + 1 - npages, by omega⟩
    have hget := granted_get vm.coremap hn hlo vm.curpid
    have hentry : vm.coremap[lo]? = some vm.coremap[lo] := List.getElem?_eq_getElem (by omega)
    have hphy := (markRun_phyaddr hn hle' hentry).trans (h.frame lo _ hentry)
    simp only [meets_bind, meets_modify, meets_require, meets_gets, meets_pure]
    rw [show k + 1 - npages = lo by omega] at hptr
    rw [show k = lo + npages - 1 by omega] at *
    simp only [hptr]
    generalize (markRun npages 0 (lo + npages - 1) vm.coremap).2 = cm at *
    have habove := h.above
    have hbound := h.bound
    have hleft := h.left
    have hcm : cm.countP (fun e => !e.taken) ≤ vm.coremap.length := by
      rw [← hlen]; exact List.countP_le_length
    rw [hphy]
    refine ⟨by simp only [pageSize] at *; omega, Or.inr ⟨lo, hn, by omega, rfl, rfl,
      fun q => ?_, ?_⟩⟩
    · rw [hget q, Option.map_map]
      rfl
    refine h.insert hn (by omega) (fun q e h1 h2 he => hfree q e (by omega) (by omega) he) rfl rfl
      (by simpa using hlen) (fun q e' he' => ?_) ?_
    · rw [hget q, Option.map_eq_some_iff] at he'
      obtain ⟨e, he, rfl⟩ := he'
      exact ⟨e, he, rfl, rfl, rfl⟩
    · have hsame : (cm.modify lo fun e =>
          { e with pid := vm.curpid, npage := npages }).countP (fun e => !e.taken) =
          cm.countP fun e => !e.taken := List.countP_modify_of_eq fun _ => rfl
      simp only [kseg0, pageSize] at hbound
      simp only [hsame, u32]
      omega

/-- `getppages` either fails and changes no entry, or hands out a fresh run of `npages` frames. -/
theorem getppages_spec (h : CoremapInv base vm live) (npages : ℕ) :
    Meets (getppages npages)
      (fun a vm' => (a = 0 ∧ vm'.coremap = vm.coremap ∧ CoremapInv base vm' live) ∨
        ∃ i, a = base + pageSize * i ∧ 0 < npages ∧ i + npages ≤ vm.coremap.length ∧
          CoremapInv base vm' (⟨a + kseg0, npages⟩ :: live))
      (fun _ _ => False) vm := by
  refine (getppages_scan h npages).imp ?_
  rintro a vm' (⟨-, hfail⟩ | ⟨lo, hn, hlen, -, ha, -, hinv⟩)
  · exact Or.inl hfail
  · exact Or.inr ⟨lo, ha, hn, hlen, hinv⟩

/-- `alloc_kpages` either fails and changes no entry, or adds a page run of the requested length
to the live allocations. -/
theorem allocKpages_spec (h : CoremapInv base vm live) (npages : ℤ) :
    Meets (allocKpages npages)
      (fun a vm' => (a = 0 ∧ vm'.coremap = vm.coremap ∧ CoremapInv base vm' live) ∨
        (a ≠ 0 ∧ CoremapInv base vm' (⟨a, u32 npages⟩ :: live)))
      (fun _ _ => False) vm := by
  unfold allocKpages
  simp only [meets_bind, meets_ite, meets_pure]
  refine (getppages_spec h (u32 npages)).imp ?_
  have habove := h.above
  have hbound := h.bound
  rintro a vm' (⟨rfl, hsame, hinv⟩ | ⟨i, rfl, hn, hi, hinv⟩)
  · exact ⟨fun _ => Or.inl ⟨trivial, hsame, hinv⟩, fun hne => absurd rfl hne⟩
  · have hlt : base + pageSize * i < kseg0 := by
      simp only [pageSize] at hbound ⊢; omega
    rw [paddrToKvaddr_of_lt hlt]
    refine ⟨fun hz => absurd hz (by omega), fun _ => Or.inr ⟨?_, hinv⟩⟩
    simp only [kseg0]
    omega

/-- A request is granted when its address is not zero. -/
theorem grant_of_run {npages : ℤ} {a : ℕ} {vm' : Vm} (hrun : allocKpages npages vm = .ok a vm') :
    vm.grant npages = if a = 0 then none else some vm' := by
  simp only [Vm.grant, hrun]

/-- Further requests, after others have been granted. -/
theorem grants_append {vm' : Vm} {l : List ℤ} (h : vm.grants l = some vm') (l' : List ℤ) :
    vm.grants (l ++ l') = vm'.grants l' := by
  rw [Vm.grants, List.foldlM_append]
  rw [Vm.grants] at h
  rw [h]
  rfl

theorem grants_append_none {l : List ℤ} (h : vm.grants l = none) (l' : List ℤ) :
    vm.grants (l ++ l') = none := by
  rw [Vm.grants, List.foldlM_append]
  exact (congrArg (· >>= _) h).trans (Option.bind_none _)

theorem grants_singleton (npages : ℤ) : vm.grants [npages] = vm.grant npages := by
  simp [Vm.grants]

/-! ## Release -/

/-- The search of `free_kpages` finds the entry of a frame, if the frames follow one another. -/
theorem findEntry_eq {cm : List CoremapEntry} (hbound : base + pageSize * cm.length < kseg0)
    (hframe : ∀ (i : ℕ) (e : CoremapEntry), cm[i]? = some e → e.phyaddr = base + pageSize * i)
    {i : ℕ} (hi : i < cm.length) : findEntry cm (base + pageSize * i + kseg0) = some i := by
  have hkv : ∀ j (hj : j < cm.length),
      paddrToKvaddr (cm[j]).phyaddr = base + pageSize * j + kseg0 := by
    intro j hj
    rw [hframe j _ (List.getElem?_eq_getElem hj), paddrToKvaddr_of_lt]
    simp only [pageSize] at hbound ⊢
    omega
  unfold findEntry
  rw [List.findIdx?_eq_some_iff_getElem]
  refine ⟨hi, by simp only [hkv i hi, decide_true], fun j hji => ?_⟩
  simp only [hkv j (by omega), decide_eq_true_eq, pageSize]
  omega

theorem findEntry_frame (h : CoremapInv base vm live) {i : ℕ} (hi : i < vm.coremap.length) :
    findEntry vm.coremap (base + pageSize * i + kseg0) = some i :=
  findEntry_eq h.bound h.frame hi

/-- Clearing the run of `n` entries from `lo` on removes its allocation from the live ones. -/
theorem CoremapInv.remove {lo n : ℕ}
    (h : CoremapInv base vm (⟨base + pageSize * lo + kseg0, n⟩ :: live))
    {vm' : Vm} (hboot : vm'.vmIndicator = vm.vmIndicator) (hptr : vm'.coremapPtr = vm.coremapPtr)
    (hget : ∀ k : ℕ, vm'.coremap[k]? = (vm.coremap[k]?).map fun e =>
      if lo ≤ k ∧ k < lo + n then { e with taken := false } else e)
    (hlen : vm'.coremap.length = vm.coremap.length)
    (hleft : vm'.pageleft = vm'.coremap.countP fun e => !e.taken) : CoremapInv base vm' live := by
  have hback : ∀ (k : ℕ) (e' : CoremapEntry), vm'.coremap[k]? = some e' →
      ∃ e, vm.coremap[k]? = some e ∧ e'.phyaddr = e.phyaddr ∧ e'.npage = e.npage ∧
        (e'.taken = if lo ≤ k ∧ k < lo + n then false else e.taken) := by
    intro k e' he'
    rw [hget k, Option.map_eq_some_iff] at he'
    obtain ⟨e, he, rfl⟩ := he'
    exact ⟨e, he, by split <;> rfl, by split <;> rfl, by split <;> rfl⟩
  refine ⟨hboot.trans h.booted, h.aligned, by rw [hlen]; exact h.bound, by rw [hptr]; exact h.above,
    fun i e' he' => ?_, hleft, fun b hb => ?_, fun i e' he' => ?_⟩
  · obtain ⟨e, he, hphy, -, -⟩ := hback i e' he'
    rw [hphy, h.frame i e he]
  · obtain ⟨hpos, i, e, haddr, hle, he, hnp⟩ := h.run b (List.mem_cons_of_mem _ hb)
    have hi : i < vm'.coremap.length := by
      rw [hlen]; exact (List.getElem?_eq_some_iff.mp he).1
    obtain ⟨e₀, he₀, -, hnp', -⟩ := hback i _ (List.getElem?_eq_getElem hi)
    obtain rfl : e = e₀ := Option.some.inj (he.symm.trans he₀)
    exact ⟨hpos, i, _, haddr, by rw [hlen]; exact hle, List.getElem?_eq_getElem hi,
      hnp'.trans hnp⟩
  · obtain ⟨e, he, hphy, -, htk⟩ := hback i e' he'
    have hold := h.owned i e he
    rw [List.countP_cons] at hold
    simp only [decide_eq_true_eq, h.frame i e he, covers_iff] at hold
    rw [hphy, htk, h.frame i e he]
    split at hold
    case isTrue hin =>
      simp only [if_pos hin, Bool.false_eq_true, if_false]
      split at hold <;> omega
    case isFalse hin =>
      simp only [if_neg hin]
      exact hold

/-- `free_kpages` on a live allocation returns it. -/
theorem freeKpages_spec {b : PageRun} (h : CoremapInv base vm (b :: live)) :
    Meets (freeKpages b.addr) (fun _ vm' => CoremapInv base vm' live) (fun _ _ => False) vm := by
  obtain ⟨hpos, lo, e, haddr, hle, he, hnp⟩ := h.run b List.mem_cons_self
  obtain ⟨addr, n⟩ := b
  simp only at haddr hpos hle hnp
  subst haddr
  have hlo : lo < vm.coremap.length := (List.getElem?_eq_some_iff.mp he).1
  have hbound := h.bound
  simp only [kseg0, pageSize] at hbound
  -- every entry of the run is taken, so the loop raises the free count in every pass
  have htaken : ∀ (k : ℕ) (e' : CoremapEntry), lo ≤ k → k < lo + n →
      vm.coremap[k]? = some e' → e'.taken = true := by
    intro k e' h1 h2 he'
    have hold := h.owned k e' he'
    rw [List.countP_cons] at hold
    simp only [decide_eq_true_eq, h.frame k e' he', covers_iff] at hold
    rw [if_pos ⟨h1, h2⟩] at hold
    by_contra hf
    simp only [hf, if_false] at hold
    omega
  unfold freeKpages splhigh
  simp only [splx, meets_bind, meets_require, meets_gets, meets_modify, meets_pure, meets_get]
  refine ⟨Nat.le_add_left _ _, ?_⟩
  rw [findEntry_frame h hlo]
  simp only [List.getD_eq_getElem?_getD, he, Option.getD_some, hnp, meets_bind]
  refine (Meets.forRange (fun i t => t.vmIndicator = vm.vmIndicator ∧
    t.coremapPtr = vm.coremapPtr ∧ t.coremap.length = vm.coremap.length ∧
    (∀ k : ℕ, t.coremap[k]? = (vm.coremap[k]?).map fun e =>
      if lo ≤ k ∧ k < lo + i then { e with taken := false } else e) ∧
    t.pageleft = t.coremap.countP fun e => !e.taken) ?_ ?_).imp ?_
  · refine ⟨rfl, rfl, rfl, fun k => ?_, h.left⟩
    have hnone : ∀ e : CoremapEntry,
        (if lo ≤ k ∧ k < lo + 0 then { e with taken := false } else e) = e := by
      intro e; rw [if_neg (by omega)]
    simp only [hnone, Option.map_id']
  · rintro i t - hi ⟨hboot, hptr, hlen, hget, hleft⟩
    have hlt : lo + i < vm.coremap.length := by omega
    have hcur : t.coremap[lo + i]? = some vm.coremap[lo + i] := by
      rw [hget, List.getElem?_eq_getElem hlt, Option.map_some, if_neg (by omega)]
    have htk := htaken (lo + i) _ (by omega) (by omega) (List.getElem?_eq_getElem hlt)
    have hone := List.countP_modify_of_false (p := fun e : CoremapEntry => !e.taken)
      (f := fun e => { e with taken := false }) hcur (by simp [htk]) (by simp)
    have hcm : (t.coremap.countP fun e => !e.taken) ≤ t.coremap.length := List.countP_le_length
    simp only [freeEntry, meets_bind, meets_get, meets_require, meets_modify]
    refine ⟨by omega, hboot, hptr, by rw [List.length_modify, hlen], fun k => ?_, ?_⟩
    · rw [List.getElem?_modify_map, hget k, Option.map_map]
      congr 1
      funext e
      simp only [Function.comp_apply]
      split <;> split <;> split <;> first | rfl | omega
    · rw [hone, hleft]
      unfold u32
      omega
  · rintro - t ⟨hboot, hptr, hlen, hget, hleft⟩
    rw [Nat.zero_add] at hget
    exact (h.remove hboot hptr hget hlen hleft).setSpl _

/-! ## Boot -/

/-- What `ram_getsize` reports: at least one page of free memory, and nothing above the 508
megabytes to which `ram_bootstrap` cuts the memory size. -/
structure RamRange (lowest highest : ℕ) : Prop where
  page : lowest + pageSize ≤ highest
  top : highest ≤ 508 * 1024 * 1024

theorem RamRange.pagenumber_eq {lo hi : ℕ} (h : RamRange lo hi) :
    pagenumber lo hi = (hi - lo) / pageSize - 1 := by
  have hpage := h.page
  have htop := h.top
  simp only [pagenumber, pageSize, u32] at *
  omega

/-- The first managed frame lies above the coremap array and the last one below `kseg0`. -/
theorem RamRange.toppagePtr_spec {lo hi : ℕ} (h : RamRange lo hi) :
    lo < toppagePtr lo hi ∧ toppagePtr lo hi % pageSize = 0 ∧
      toppagePtr lo hi + pageSize * pagenumber lo hi < kseg0 := by
  have hpage := h.page
  have htop := h.top
  have hn := h.pagenumber_eq
  unfold pageSize at *
  unfold kseg0
  have hend : u32 (lo + pagenumber lo hi * coremapEntrySize) = lo + pagenumber lo hi * 20 := by
    unfold u32 coremapEntrySize; omega
  have hnext : u32 ((lo + pagenumber lo hi * 20 : ℕ) + coremapEntrySize) =
      lo + pagenumber lo hi * 20 + 20 := by
    unfold u32 coremapEntrySize; omega
  have harray : lo + pagenumber lo hi * 20 + 20 ≤ hi := by omega
  have hframes : lo + pagenumber lo hi * 20 + pagenumber lo hi * 4096 ≤ 600000000 := by omega
  simp only [toppagePtr, hend, hnext]
  generalize hx : lo + pagenumber lo hi * 20 + 20 = x at *
  have hround : u32 ((pageFrame x : ℕ) + 0x1000) = x - x % 4096 + 4096 := by
    unfold u32 pageFrame pageSize; omega
  rw [hround]
  omega

/-- After `vm_bootstrap` the coremap is consistent and nothing is allocated. -/
theorem vmBootstrap_spec (old : ℕ → CoremapEntry) (h : RamRange vm.firstpaddr vm.lastpaddr) :
    Meets (vmBootstrap old)
      (fun _ vm' => CoremapInv (toppagePtr vm.firstpaddr vm.lastpaddr) vm' [])
      (fun _ _ => False) vm := by
  obtain ⟨habove, haligned, hbound⟩ := h.toppagePtr_spec
  have htop := h.top
  simp only [vmBootstrap, meets_modify]
  refine ⟨rfl, haligned, by rw [List.length_map, List.length_range]; exact hbound, ?_,
    fun i e he => ?_, ?_, fun b hb => absurd hb List.not_mem_nil, ?_⟩
  · simp only [paddrToKvaddr, u32, kseg0] at *
    have hpage := h.page
    simp only [pageSize] at hpage
    omega
  · simp only [List.getElem?_map, Option.map_eq_some_iff, List.getElem?_eq_some_iff,
      List.length_range, List.getElem_range] at he
    obtain ⟨j, ⟨hj, rfl⟩, rfl⟩ := he
    show u32 (toppagePtr vm.firstpaddr vm.lastpaddr + 4096 * i) = _
    unfold pageSize kseg0 at hbound
    unfold u32 pageSize
    omega
  · have hfree : ∀ e ∈ (List.range (pagenumber vm.firstpaddr vm.lastpaddr)).map (fun i =>
        { old i with
          taken := false
          viraddr := 0
          phyaddr := u32 (toppagePtr vm.firstpaddr vm.lastpaddr + 4096 * i) }),
        (!e.taken) = true := by
      intro e he
      obtain ⟨i, -, rfl⟩ := List.mem_map.mp he
      rfl
    rw [List.countP_eq_length.mpr hfree, List.length_map, List.length_range]
  · intro i e he
    simp only [List.getElem?_map, Option.map_eq_some_iff] at he
    obtain ⟨j, -, rfl⟩ := he
    rfl

/-! ## Runs of the page allocator -/

/-- The page allocator and the allocations its callers hold. -/
structure PageState where
  vm : Vm
  live : List PageRun

/-- One call of the page allocator. A caller may ask for any `int` number of pages, and may free
an address it got from an earlier call and has not freed since. -/
inductive PageStep : PageState → PageState → Prop where
  | alloc {s : PageState} {npages : ℤ} {addr : ℕ} {vm' : Vm}
      (hint : -2147483648 ≤ npages ∧ npages < 2147483648)
      (hcall : allocKpages npages s.vm = .ok addr vm') :
      PageStep s ⟨vm', if addr = 0 then s.live else ⟨addr, npages.toNat⟩ :: s.live⟩
  | free {s : PageState} {b : PageRun} {vm' : Vm} (hlive : b ∈ s.live)
      (hcall : freeKpages b.addr s.vm = .ok () vm') :
      PageStep s ⟨vm', s.live.erase b⟩

/-- A live allocation is no longer than the coremap. -/
theorem CoremapInv.npages_lt (h : CoremapInv base vm live) {b : PageRun} (hb : b ∈ live) :
    b.npages < 2147483648 := by
  obtain ⟨-, i, e, -, hle, -, -⟩ := h.run b hb
  have hbound := h.bound
  simp only [pageSize, kseg0] at hbound
  omega

/-- One call keeps the invariant. -/
theorem PageStep.inv {s t : PageState} (hstep : PageStep s t) (h : CoremapInv base s.vm s.live) :
    CoremapInv base t.vm t.live := by
  cases hstep with
  | @alloc npages addr vm' hint hcall =>
    rcases (allocKpages_spec h npages).of_ok hcall with ⟨rfl, -, hinv⟩ | ⟨hne, hinv⟩
    · simpa using hinv
    · have hlt := hinv.npages_lt List.mem_cons_self
      have heq : u32 npages = npages.toNat := by
        simp only [u32] at hlt ⊢; omega
      rw [heq] at hinv
      simpa only [if_neg hne] using hinv
  | @free b vm' hlive hcall =>
    exact (freeKpages_spec (h.perm (List.perm_cons_erase hlive))).of_ok hcall

/-- Entry `i` of the coremap belongs to the allocation `b`. -/
def Occupies (vm : Vm) (b : PageRun) (i : ℕ) : Prop :=
  ∃ e, vm.coremap[i]? = some e ∧ b.Covers e.phyaddr

/-- An allocation occupies as many consecutive entries as it has pages, from the one that holds its
physical address and its length on. -/
theorem CoremapInv.occupies_iff (h : CoremapInv base vm live) {b : PageRun} (hb : b ∈ live) :
    ∃ i, b.addr = base + pageSize * i + kseg0 ∧
      (∀ j, Occupies vm b j ↔ i ≤ j ∧ j < i + b.npages) ∧
      ∃ e, vm.coremap[i]? = some e ∧ e.phyaddr = b.addr - kseg0 ∧ e.npage = b.npages := by
  obtain ⟨hpos, i, e, haddr, hle, he, hnp⟩ := h.run b hb
  refine ⟨i, haddr, fun j => ?_, e, he, by rw [h.frame i e he, haddr]; omega, hnp⟩
  have hcov : ∀ e', vm.coremap[j]? = some e' →
      (b.Covers e'.phyaddr ↔ i ≤ j ∧ j < i + b.npages) := by
    intro e' he'
    rw [h.frame j e' he', show b = ⟨base + pageSize * i + kseg0, b.npages⟩ by rw [← haddr],
      covers_iff]
  constructor
  · rintro ⟨e', he', hc⟩
    exact (hcov e' he').mp hc
  · intro hj
    have hjlen : j < vm.coremap.length := by omega
    exact ⟨_, List.getElem?_eq_getElem hjlen, (hcov _ (List.getElem?_eq_getElem hjlen)).mpr hj⟩

/-- An entry that some allocation occupies is taken. -/
theorem CoremapInv.taken_of_occupies (h : CoremapInv base vm live) {b : PageRun} (hb : b ∈ live)
    {i : ℕ} {e : CoremapEntry} (he : vm.coremap[i]? = some e) (hocc : Occupies vm b i) :
    e.taken = true := by
  obtain ⟨e', he', hcov⟩ := hocc
  obtain rfl : e = e' := Option.some.inj (he.symm.trans he')
  by_contra hf
  exact h.not_covers_of_free he (by simpa using hf) b hb hcov

/-- No entry belongs to two live allocations. -/
theorem CoremapInv.pairwise_disjoint (h : CoremapInv base vm live) :
    live.Pairwise fun b c => ∀ i, Occupies vm b i → ¬ Occupies vm c i := by
  have hle : ∀ (i : ℕ) (e : CoremapEntry), vm.coremap[i]? = some e →
      live.countP (fun b => b.Covers e.phyaddr) ≤ 1 := by
    intro i e he
    rw [h.owned i e he]
    split <;> omega
  clear h
  induction live with
  | nil => exact List.Pairwise.nil
  | cons b bs ih =>
    refine List.Pairwise.cons (fun c hc i => ?_) (ih fun i e he => ?_)
    · rintro ⟨e, he, hb⟩ ⟨e', he', hcov⟩
      obtain rfl : e = e' := Option.some.inj (he.symm.trans he')
      have hone := hle i e he
      rw [List.countP_cons, if_pos (decide_eq_true hb)] at hone
      have hzero : bs.countP (fun b => b.Covers e.phyaddr) = 0 := by omega
      exact absurd (decide_eq_true hcov) (List.countP_eq_zero.mp hzero c hc)
    · have := hle i e he
      rw [List.countP_cons] at this
      omega

/-- A live allocation is a page-aligned range of kernel addresses. -/
theorem CoremapInv.run_range (h : CoremapInv base vm live) {b : PageRun} (hb : b ∈ live) :
    0 < b.npages ∧ b.addr % pageSize = 0 ∧ kseg0 < b.addr ∧
      b.addr + pageSize * b.npages < 2 * kseg0 := by
  obtain ⟨hpos, i, e, haddr, hle, -, -⟩ := h.run b hb
  have hal := h.aligned
  have hbound := h.bound
  have habove := h.above
  simp only [pageSize, kseg0] at *
  omega

/-- Live allocations do not overlap. -/
theorem CoremapInv.pairwise_apart (h : CoremapInv base vm live) :
    live.Pairwise fun b c =>
      b.addr + pageSize * b.npages ≤ c.addr ∨ c.addr + pageSize * c.npages ≤ b.addr := by
  refine h.pairwise_disjoint.imp_of_mem fun {b c} hb hc hdis => ?_
  obtain ⟨i, hbaddr, hbocc, -⟩ := h.occupies_iff hb
  obtain ⟨j, hcaddr, hcocc, -⟩ := h.occupies_iff hc
  have hbpos := (h.run b hb).1
  have hcpos := (h.run c hc).1
  -- overlapping runs share the entry where the later one starts
  have hmax := hdis (max i j)
  rw [hbocc, hcocc] at hmax
  rw [hbaddr, hcaddr]
  simp only [pageSize]
  omega

/-- Every taken entry belongs to exactly one live allocation. -/
theorem CoremapInv.exists_occupies (h : CoremapInv base vm live) {i : ℕ} {e : CoremapEntry}
    (he : vm.coremap[i]? = some e) (ht : e.taken = true) :
    ∃ b ∈ live, Occupies vm b i ∧ ∀ c ∈ live, Occupies vm c i → c = b := by
  have hone : live.countP (fun b => b.Covers e.phyaddr) = 1 := by
    rw [h.owned i e he, ht]; rfl
  obtain ⟨b, hb, hcov⟩ := List.countP_pos_iff.mp (hone ▸ Nat.one_pos)
  refine ⟨b, hb, ⟨e, he, of_decide_eq_true hcov⟩, fun c hc hocc => ?_⟩
  obtain ⟨e', he', hcov'⟩ := hocc
  obtain rfl : e = e' := Option.some.inj (he.symm.trans he')
  exact List.eq_of_countP_le_one hone.le hc hb (decide_eq_true hcov') hcov

/-- The states of the page allocator after `vm_bootstrap` and any number of calls. -/
def PageState.Reachable (s : PageState) : Prop :=
  ∃ (vm₀ vm : Vm) (old : ℕ → CoremapEntry), RamRange vm₀.firstpaddr vm₀.lastpaddr ∧
    vmBootstrap old vm₀ = .ok () vm ∧ Relation.ReflTransGen PageStep ⟨vm, []⟩ s

/-- The invariant holds in every state of every run. -/
theorem PageState.Reachable.inv {s : PageState} (hs : s.Reachable) :
    ∃ base, CoremapInv base s.vm s.live := by
  obtain ⟨vm₀, vm, old, hram, hboot, hrun⟩ := hs
  refine ⟨toppagePtr vm₀.firstpaddr vm₀.lastpaddr, ?_⟩
  induction hrun with
  | refl => exact (vmBootstrap_spec old hram).of_ok hboot
  | tail _ hstep ih => exact hstep.inv ih

/-- **The three records of the coremap stay in step.** In every state of every run: the free count
is the number of free entries; a live allocation occupies consecutive taken entries, as many as it
has pages, and the lowest of them holds its physical address and its length; no entry belongs to
two live allocations and every taken entry belongs to one. No call that respects the ledger stops
the machine. -/
theorem coremap_consistent {s : PageState} (hs : s.Reachable) :
    s.vm.pageleft = s.vm.coremap.countP (fun e => !e.taken) ∧
    (∀ b ∈ s.live, ∃ i : ℕ, (∀ j, Occupies s.vm b j ↔ i ≤ j ∧ j < i + b.npages) ∧
      (∀ (j : ℕ) (e : CoremapEntry), i ≤ j → j < i + b.npages → s.vm.coremap[j]? = some e →
        e.taken = true) ∧
      ∃ e, s.vm.coremap[i]? = some e ∧ e.phyaddr = b.addr - 0x80000000 ∧ e.npage = b.npages) ∧
    (s.live.Pairwise fun b c => ∀ i, Occupies s.vm b i → ¬ Occupies s.vm c i) ∧
    (∀ (i : ℕ) (e : CoremapEntry), s.vm.coremap[i]? = some e → e.taken = true →
      ∃ b ∈ s.live, Occupies s.vm b i ∧ ∀ c ∈ s.live, Occupies s.vm c i → c = b) ∧
    (∀ npages : ℤ, ∃ addr vm', allocKpages npages s.vm = .ok addr vm') ∧
    ∀ b ∈ s.live, ∃ vm', freeKpages b.addr s.vm = .ok () vm' := by
  obtain ⟨base, h⟩ := hs.inv
  refine ⟨h.left, fun b hb => ?_, h.pairwise_disjoint, fun i e he ht => h.exists_occupies he ht,
    fun npages => ?_, fun b hb => ?_⟩
  · obtain ⟨i, -, hocc, hlow⟩ := h.occupies_iff hb
    rw [kseg0_eq] at hlow
    exact ⟨i, hocc, fun j e h1 h2 he => h.taken_of_occupies hb he ((hocc j).mpr ⟨h1, h2⟩), hlow⟩
  · obtain ⟨addr, vm', hcall, -⟩ := (allocKpages_spec h npages).exists_ok
    exact ⟨addr, vm', hcall⟩
  · obtain ⟨⟨⟩, vm', hcall, -⟩ :=
      (freeKpages_spec (h.perm (List.perm_cons_erase hb))).exists_ok
    exact ⟨vm', hcall⟩

/-- A machine with five free pages, before `vm_bootstrap`. -/
def fivePageVm : Vm where
  curspl := 0
  curpid := 0
  vmIndicator := false
  firstpaddr := 0x20000
  lastpaddr := 0x25000
  coremapPtr := 0
  coremap := []
  pageleft := 0

/-- The state a call of `alloc_kpages` leads to. -/
def PageState.afterAlloc (npages : ℤ) (s : PageState) : PageState :=
  let addr := (allocKpages npages s.vm).valueD 0
  ⟨(allocKpages npages s.vm).stateD s.vm,
    if addr = 0 then s.live else ⟨addr, npages.toNat⟩ :: s.live⟩

/-- The state a call of `free_kpages` leads to. -/
def PageState.afterFree (b : PageRun) (s : PageState) : PageState :=
  ⟨(freeKpages b.addr s.vm).stateD s.vm, s.live.erase b⟩

/-- Two pages, one page, then the two pages back: the third of the four managed frames is taken. -/
def fragmentedPages : PageState :=
  PageState.afterFree ⟨0x80021000, 2⟩ (PageState.afterAlloc 1 (PageState.afterAlloc 2
    ⟨(vmBootstrap (fun _ => default) fivePageVm).stateD fivePageVm, []⟩))

theorem fragmentedPages_reachable : fragmentedPages.Reachable :=
  ⟨fivePageVm, _, fun _ => default, ⟨by decide, by decide⟩, rfl,
    ((Relation.ReflTransGen.refl.tail
      (.alloc (by decide) (Outcome.eq_ok _ _ _ (by decide +kernel)))).tail
        (.alloc (by decide) (Outcome.eq_ok _ _ _ (by decide +kernel)))).tail
          (.free (by decide +kernel) (Outcome.eq_ok _ () _ (by decide +kernel)))⟩

/-- One allocation is live, above the first two of the four managed frames. -/
theorem coremap_consistent_fivePageVm : ∃ s : PageState, s.Reachable ∧
    s.live = [⟨0x80023000, 1⟩] ∧ s.vm.coremap.countP (fun e => !e.taken) = 3 ∧
    s.vm.pageleft = s.vm.coremap.countP (fun e => !e.taken) :=
  ⟨fragmentedPages, fragmentedPages_reachable, by decide +kernel, by decide +kernel,
    (coremap_consistent fragmentedPages_reachable).1⟩

end Os161
