import Os161.Vm.CoremapInvariant

/-!
# First fit

`getppages` scans the coremap once, with one running count of the free entries just seen.
`findRun_spec` says that the scan stops at the end of a free run; here is the other half: it stops
at the first one, and it runs off the array only if there is none. Together with the free count,
which is exact and so never turns down a request that some run could meet, this makes the allocator
a complete first fit.
-/

namespace Os161

open Prog

/-- The `n` entries of the coremap from `lo` on are there and free. -/
def FreeRun (cm : List CoremapEntry) (n lo : ℕ) : Prop :=
  lo + n ≤ cm.length ∧
    ∀ (k : ℕ) (e : CoremapEntry), lo ≤ k → k < lo + n → cm[k]? = some e → e.taken = false

/-- The scan passes over no run: every `npages` consecutive entries that end at `i` or later, and
before the place where the scan stops, hold a taken one. The `count` entries before `i` are free and
the one before them, if there is one, is not. -/
theorem findRun_first {npages : ℕ} (free : ℕ → Prop) {es : List CoremapEntry} {i count : ℕ}
    (hes : ∀ (j : ℕ) (e : CoremapEntry), es[j]? = some e → (e.taken = false ↔ free (i + j)))
    (hcount : count < npages) (hblock : count < i → ¬ free (i - count - 1)) {lo : ℕ}
    (hi : i < lo + npages) (hlo : lo + npages ≤ (findRun npages es i count).getD (i + es.length)) :
    ∃ k, lo ≤ k ∧ k < lo + npages ∧ ¬ free k := by
  induction es generalizing i count with
  | nil =>
    simp only [findRun, Option.getD_none, List.length_nil] at hlo
    omega
  | cons e es ih =>
    have hhead : e.taken = false ↔ free i := by simpa using hes 0 e rfl
    have htail : ∀ (j : ℕ) (e' : CoremapEntry), es[j]? = some e' →
        (e'.taken = false ↔ free (i + 1 + j)) := by
      intro j e' he'
      have := hes (j + 1) e' (by simpa using he')
      rwa [show i + (j + 1) = i + 1 + j by omega] at this
    rw [show i + (e :: es).length = i + 1 + es.length by simp; omega] at hlo
    simp only [findRun] at hlo
    split at hlo
    case isTrue ht =>
      split at hlo
      case isTrue hn =>
        simp only [Option.getD_some] at hlo
        omega
      case isFalse hn =>
        by_cases hend : lo + npages = i + 1
        · -- a run that ends here is longer than the count, so it reaches the entry before it
          exact ⟨i - count - 1, by omega, by omega, hblock (by omega)⟩
        · refine ih htail (by omega) (fun hlt => ?_) (by omega) hlo
          rw [show i + 1 - (count + 1) - 1 = i - count - 1 by omega]
          exact hblock (by omega)
    case isFalse ht =>
      by_cases hend : lo + npages = i + 1
      · exact ⟨i, by omega, by omega, fun hf => ht (hhead.mpr hf)⟩
      · have hreset : 0 < i + 1 → ¬ free (i + 1 - 0 - 1) := fun _ hf => ht (hhead.mpr hf)
        exact ih htail (by omega) hreset (by omega) hlo

/-- A free run is no longer than the number of free entries. -/
theorem FreeRun.le_countP {cm : List CoremapEntry} {n lo : ℕ} (h : FreeRun cm n lo) :
    n ≤ cm.countP fun e => !e.taken := by
  have hlen : ((cm.drop lo).take n).length = n := by
    rw [List.length_take, List.length_drop]
    have := h.1
    omega
  have hall : ∀ e ∈ (cm.drop lo).take n, (!e.taken) = true := by
    intro e he
    obtain ⟨k, hk, rfl⟩ := List.mem_iff_getElem.mp he
    have hfree := h.2 (lo + k) _ (Nat.le_add_right _ _) (by omega)
      (List.getElem?_eq_getElem (by have := h.1; omega))
    simp only [List.getElem_take, List.getElem_drop, hfree, Bool.not_false]
  calc n = ((cm.drop lo).take n).countP (fun e => !e.taken) := by
        rw [List.countP_eq_length.mpr hall, hlen]
    _ ≤ cm.countP fun e => !e.taken :=
        ((List.take_sublist _ _).trans (List.drop_sublist _ _)).countP_le

variable {base : ℕ} {vm : Vm} {live : List PageRun}

/-- What the scan of a whole coremap finds: the end of the lowest free run, or that there is
none. -/
theorem findRun_coremap (cm : List CoremapEntry) {n : ℕ} (hn : 0 < n) :
    match findRun n cm 0 0 with
    | none => ∀ lo, ¬ FreeRun cm n lo
    | some k => n ≤ k + 1 ∧ FreeRun cm n (k + 1 - n) ∧ ∀ lo < k + 1 - n, ¬ FreeRun cm n lo := by
  have hes : ∀ (j : ℕ) (e : CoremapEntry), cm[j]? = some e →
      (e.taken = false ↔ ∀ e', cm[0 + j]? = some e' → e'.taken = false) := by
    intro j e he
    rw [Nat.zero_add]
    exact ⟨fun ht e' he' => by rwa [← Option.some.inj (he.symm.trans he')], fun hf => hf e he⟩
  have hfirst : ∀ lo, lo + n ≤ (findRun n cm 0 0).getD (0 + cm.length) →
      ∃ k, lo ≤ k ∧ k < lo + n ∧ ¬ ∀ e, cm[k]? = some e → e.taken = false := fun lo =>
    findRun_first _ hes hn (fun hlt => absurd hlt (by omega)) (by omega)
  cases hfind : findRun n cm 0 0 with
  | none =>
    rintro lo ⟨hlen, hfree⟩
    rw [hfind, Option.getD_none, Nat.zero_add] at hfirst
    obtain ⟨k, hk, hlt, hnot⟩ := hfirst lo hlen
    exact hnot fun e he => hfree k e hk hlt he
  | some k =>
    obtain ⟨-, hle, hk, hrun⟩ := findRun_found hfind
    refine ⟨hle, ⟨by omega, fun q e h1 h2 he => hrun q e h1 (by omega) he⟩, ?_⟩
    rintro lo hlo ⟨hlen, hfree⟩
    rw [hfind, Option.getD_some] at hfirst
    obtain ⟨q, hq, hlt, hnot⟩ := hfirst lo (by omega)
    exact hnot fun e he => hfree q e hq hlt he

/-- **`getppages` is a complete first fit.** In every consistent coremap and for every request of at
least one page: the call returns 0 exactly when no `n` consecutive entries are free, and then
changes no entry; otherwise it returns the frame of the lowest such run and marks exactly its
entries. -/
theorem getppages_firstFit (h : CoremapInv base vm live) {n : ℕ} (hn : 1 ≤ n) :
    ∃ a vm', getppages n vm = .ok a vm' ∧
      (a = 0 ↔ ∀ lo, ¬ FreeRun vm.coremap n lo) ∧
      (a = 0 → vm'.coremap = vm.coremap) ∧
      (a ≠ 0 → ∃ lo e, FreeRun vm.coremap n lo ∧ (∀ lo' < lo, ¬ FreeRun vm.coremap n lo') ∧
        vm.coremap[lo]? = some e ∧ a = e.phyaddr ∧
        ∀ k : ℕ, (vm'.coremap[k]?).map CoremapEntry.taken = (vm.coremap[k]?).map fun e =>
          if lo ≤ k ∧ k < lo + n then true else e.taken) := by
  obtain ⟨a, vm', hcall, hpost⟩ := (getppages_scan h n).exists_ok
  refine ⟨a, vm', hcall, ?_⟩
  have hscan := findRun_coremap vm.coremap hn
  rcases hpost with ⟨hnone, rfl, hsame, -⟩ | ⟨lo, -, hlen, hfind, rfl, hmark, -⟩
  · -- the free count is exact, so it turns no request down that a run could meet
    have hno : ∀ lo, ¬ FreeRun vm.coremap n lo := by
      intro lo hrun
      rcases hnone with hleft | hfind
      · have hle := hrun.le_countP
        rw [← h.left] at hle
        omega
      · rw [hfind] at hscan
        exact hscan lo hrun
    exact ⟨⟨fun _ => hno, fun _ => rfl⟩, fun _ => hsame, fun hne => absurd rfl hne⟩
  · rw [hfind] at hscan
    obtain ⟨-, hrun, hlow⟩ := hscan
    rw [show lo + n - 1 + 1 - n = lo by omega] at hrun hlow
    have hpos : base + pageSize * lo ≠ 0 := by
      have := h.above
      omega
    have hlt : lo < vm.coremap.length := by omega
    refine ⟨⟨fun hz => absurd hz hpos, fun hno => absurd hrun (hno lo)⟩, fun hz => absurd hz hpos,
      fun _ => ⟨lo, _, hrun, hlow, List.getElem?_eq_getElem hlt, ?_, hmark⟩⟩
    exact (h.frame lo _ (List.getElem?_eq_getElem hlt)).symm

/-- With the third of four frames taken, two pages come from the first two frames, and three pages
are refused although three frames are free. -/
theorem getppages_firstFit_fragmented :
    (∃ vm', getppages 2 fragmentedPages.vm = .ok 0x21000 vm' ∧
      ∃ lo, FreeRun fragmentedPages.vm.coremap 2 lo) ∧
    fragmentedPages.vm.pageleft = 3 ∧
      ∃ vm', getppages 3 fragmentedPages.vm = .ok 0 vm' ∧
        ∀ lo, ¬ FreeRun fragmentedPages.vm.coremap 3 lo := by
  obtain ⟨base, h⟩ := fragmentedPages_reachable.inv
  obtain ⟨a, vm', hcall, hzero, -, hrun⟩ := getppages_firstFit h (n := 2) (by decide)
  obtain ⟨b, vm'', hcall', hzero', -, -⟩ := getppages_firstFit h (n := 3) (by decide)
  have ha : a = 0x21000 := by
    have := congrArg (Outcome.valueD 0) hcall
    exact this.symm.trans (by decide +kernel)
  have hb : b = 0 := by
    have := congrArg (Outcome.valueD 1) hcall'
    exact this.symm.trans (by decide +kernel)
  subst ha hb
  obtain ⟨lo, -, hfree, -⟩ := hrun (by decide)
  exact ⟨⟨vm', hcall, lo, hfree⟩, by decide +kernel, vm'', hcall', hzero'.mp rfl⟩

end Os161
