import Os161.Vm.UserPages

/-!
# Copies of address spaces

`as_copy` makes an exact and independent copy (`asCopy_exact`). In every state of every run
(`AsState.Reachable`), if the page allocator grants its requests, it returns; the copy has a page
where the old address space has one, in a frame of its own and with the same contents; the old
address space, its tables and its pages are as they were; and from then on a write through one of
the two does not show in the other.

That it returns rests on three facts: the specification stops the machine only where a request is
refused or `as_prepare_load` finds `as_stackpbase` set (`asCopy_spec`), and no address space has it
set (`Copyable`).
-/

namespace Os161

open Prog

variable {base : ℕ}

/-- The address spaces are in order, and `as_stackpbase` is zero in all of them. -/
structure Copyable (base : ℕ) (s : AsState) : Prop where
  user : UserInv base s.sys s.spaces s.blocks
  stack : ∀ as ∈ s.spaces, (s.sys.spaces as).asStackpbase = 0

/-- What an operation shows keeps `as_stackpbase`. -/
theorem Shows.stack {L : List ℕ} {blocks : List KBlock} {s s' : VmSys} {v : ℕ → Pages}
    (h : Shows L blocks s v s') (hstack : ∀ as ∈ L, (s.spaces as).asStackpbase = 0) :
    ∀ as ∈ L, (s'.spaces as).asStackpbase = 0 := by
  intro as has
  have hregions := congrArg (fun r => r.2.2) (h.regions as has)
  exact hregions.trans (hstack as has)

/-- Writing the regions of an address space. -/
theorem Copyable.setSpace {s : AsState} (h : Copyable base s) (as : ℕ) (sp : Addrspace)
    (hsp : sp.pagetable2 = (s.sys.spaces as).pagetable2)
    (hstack : sp.asStackpbase = (s.sys.spaces as).asStackpbase) :
    Copyable base
      { s with sys := { s.sys with spaces := Function.update s.sys.spaces as sp } } := by
  refine ⟨h.user.setSpace as sp hsp, fun as' has' => ?_⟩
  by_cases heq : as' = as
  · subst heq
    simp only [Function.update_self, hstack]
    exact h.stack as' has'
  · simp only [Function.update_of_ne heq]
    exact h.stack as' has'

theorem AsStep.copyable {s t : AsState} (hstep : AsStep s t) (h : Copyable base s) :
    Copyable base t := by
  have hinv := hstep.inv h.user.inv
  cases hstep with
  | @asCreate as sys' hcall =>
    obtain ⟨hshows, -, ⟨rfl, h'⟩ | ⟨hne, h', hregions, -⟩⟩ := (asCreate_shows h.user).of_ok hcall
    · exact ⟨by simpa using h', by simpa using hshows.stack h.stack⟩
    · rw [if_neg hne]
      refine ⟨h', fun as' has' => ?_⟩
      rcases List.mem_cons.mp has' with rfl | has'
      · exact congrArg (fun r => r.2.2) hregions
      · exact hshows.stack h.stack as' has'
  | vmFault has hcall =>
    rcases has with rfl | has
    · exact ((vmFault_null _ _ _).of_ok hcall).elim
    · obtain ⟨h', -, hshows, -⟩ := (vmFault_shows h.user has _ _).of_ok hcall
      exact ⟨h', hshows.stack h.stack⟩
  | vmFaultFails has hcall =>
    rcases has with rfl | has
    · obtain ⟨hsame, -⟩ := (vmFault_null _ _ _).of_err hcall
      exact ⟨h.user.of_tables (List.Subset.refl _) hinv hsame.spaces hsame.tables,
        (hsame.shows _ []).stack h.stack⟩
    · obtain ⟨h', -, ⟨-, -, hshows⟩ | ⟨-, -, -, hshows⟩⟩ :=
        (vmFault_shows h.user has _ _).of_err hcall
      · exact ⟨h', hshows.stack h.stack⟩
      · exact ⟨h', hshows.stack h.stack⟩
  | @asCopy old new sys' hold hcall =>
    obtain ⟨h', -, hshows, -, hregions⟩ := (asCopy_shows h.user hold).of_ok hcall
    refine ⟨h', fun as has => ?_⟩
    rcases List.mem_cons.mp has with rfl | has
    · exact (congrArg (fun r => r.2.2) hregions).trans (h.stack old hold)
    · exact hshows.stack h.stack as has
  | asCopyFails hold hcall =>
    obtain ⟨h', -, hshows⟩ := (asCopy_shows h.user hold).of_err hcall
    exact ⟨h', hshows.stack h.stack⟩
  | @asDestroy as sys' has hcall =>
    have hperm := List.perm_cons_erase has
    obtain ⟨h', -, hshows⟩ := (asDestroy_shows (h.user.perm hperm)).of_ok hcall
    exact ⟨h', hshows.stack fun as' has' => h.stack as' (List.mem_of_mem_erase has')⟩
  | @asDefineRegion as vaddr sys' hcall =>
    have hspec : Meets (Os161.asDefineRegion as vaddr)
        (fun _ sys' => Copyable base { s with sys := sys' }) (fun _ _ => True) s.sys := by
      simp only [Os161.asDefineRegion, meets_bind, meets_get, meets_ite, meets_modify, meets_fail]
      exact ⟨fun _ => h.setSpace _ _ rfl rfl,
        fun _ => ⟨fun _ => h.setSpace _ _ rfl rfl, fun _ => trivial⟩⟩
    exact hspec.of_ok hcall
  | asActivate hcall =>
    cases hcall
    exact ⟨h.user.of_tables (List.Subset.refl _) hinv rfl rfl, h.stack⟩
  | heap _ => exact ⟨h.user.of_tables (List.Subset.refl _) hinv rfl rfl, h.stack⟩
  | write _ _ _ => exact ⟨h.user.of_tables (List.Subset.refl _) hinv rfl rfl, h.stack⟩

theorem Copyable.run {s t : AsState} (h : Copyable base s)
    (hrun : Relation.ReflTransGen AsStep s t) : Copyable base t := by
  induction hrun with
  | refl => exact h
  | tail _ hstep ih => exact hstep.copyable ih

theorem AsState.Reachable.copyable {s : AsState} (hs : s.Reachable) : ∃ base, Copyable base s := by
  obtain ⟨vm₀, sys₀, old, hram, hboot, hempty, hrun⟩ := hs
  refine ⟨toppagePtr vm₀.firstpaddr vm₀.lastpaddr, Copyable.run ⟨⟨?_, ?_⟩, ?_⟩ hrun⟩
  · exact hempty.inv ((vmBootstrap_spec old hram).of_ok hboot)
  · exact fun _ has => absurd has List.not_mem_nil
  · exact fun _ has => absurd has List.not_mem_nil

/-- A write through one address space does not show in another one. -/
theorem Copyable.write_apart {s : AsState} (h : Copyable base s) {as as' i j frame x v : ℕ}
    (has' : as' ∈ s.spaces) (hne : as' ≠ as) (hmap : Maps s.sys s.spaces as i j frame)
    (hlo : frame + kseg0 ≤ x) (hhi : x < frame + kseg0 + pageSize) :
    VmSys.pages { s.sys with kern := { s.sys.kern with
      mem := Function.update s.sys.kern.mem x v } } as' = s.sys.pages as' := by
  obtain ⟨y, rfl⟩ := Nat.exists_eq_add_of_le hlo
  have hf := (frame?_eq_some hmap.live).mpr hmap
  have hy : y < pageSize := by omega
  have hshows := (h.user.store hmap.live hf hy v).2
  rw [hshows.pages as' has', Function.update_of_ne hne]

/-- Where its requests are granted, `as_copy` returns. -/
theorem Copyable.asCopy_returns {s : AsState} (h : Copyable base s) {old : ℕ}
    (hold : old ∈ s.spaces) (hroom : s.sys.kern.vm.grants (copyNeeds s.sys old) ≠ none) :
    ∃ new sys', asCopy old s.sys = .ok new sys' ∧ sys'.spaces old = s.sys.spaces old ∧
      ∀ i < 512, sys'.tables ((s.sys.spaces old).pagetable2 i) =
        s.sys.tables ((s.sys.spaces old).pagetable2 i) := by
  have hspec := asCopy_spec (H := fun _ => False) h.user.inv hold fun hbad _ => by
    rcases hbad with hnone | hstack
    · exact hroom hnone
    · exact hstack (h.stack old hold)
  cases hrun : asCopy old s.sys with
  | ok new sys' =>
    obtain ⟨-, hspaces, htables, -⟩ := hspec.of_ok hrun
    exact ⟨new, sys', rfl, hspaces, htables⟩
  | err e sys' =>
    -- the request for the address space itself is the first one
    obtain ⟨-, -, hfirst⟩ := hspec.of_err hrun
    refine absurd ?_ hroom
    rw [copyNeeds, ← List.singleton_append]
    exact grants_append_none (by rw [grants_singleton, hfirst.grant]) _
  | halted msg => exact (hspec.of_halted hrun).elim

/-- The frame of a page of the copy. -/
theorem pages_eq_of_frames {s s' : VmSys} {as as' i j frame frame' : ℕ}
    (hpages : s'.pages as' i j = s.pages as i j) (hf : s.frame? as i j = some frame)
    (hf' : s'.frame? as' i j = some frame') {x : ℕ} (hx : x < pageSize) :
    s'.kern.mem (frame' + kseg0 + x) = s.kern.mem (frame + kseg0 + x) := by
  rw [VmSys.pages, VmSys.pages, hf, hf', Option.map_some, Option.map_some,
    Option.some.injEq] at hpages
  have hword := congrFun hpages x
  simpa only [VmSys.contents, clip, if_pos hx] using hword

/-- **`as_copy` makes an exact, independent copy.** In every state of every run, for every address
space `old`: if none of its allocations is refused, `as_copy` returns. The copy has an entry where
`old` has one, in another frame and with the same contents; `old`, its tables and its pages are
unchanged; and in every state reached from there, a write through one of the two does not change
what is seen through the other. -/
theorem asCopy_exact {s : AsState} (hs : s.Reachable) {old : ℕ} (hold : old ∈ s.spaces)
    (hroom : s.sys.kern.vm.grants (copyNeeds s.sys old) ≠ none) :
    ∃ new sys', asCopy old s.sys = .ok new sys' ∧ new ≠ old ∧
      (∀ i j, (sys'.frame? new i j).isSome = (s.sys.frame? old i j).isSome) ∧
      (∀ i j frame frame', s.sys.frame? old i j = some frame → sys'.frame? new i j = some frame' →
        frame' ≠ frame ∧ ∀ x < pageSize,
          sys'.kern.mem (frame' + kseg0 + x) = s.sys.kern.mem (frame + kseg0 + x)) ∧
      sys'.spaces old = s.sys.spaces old ∧
      (∀ i < 512, sys'.tables ((s.sys.spaces old).pagetable2 i) =
        s.sys.tables ((s.sys.spaces old).pagetable2 i)) ∧
      sys'.pages old = s.sys.pages old ∧
      ∀ t, Relation.ReflTransGen AsStep ⟨sys', new :: s.spaces, s.blocks⟩ t →
        ∀ as as' i j frame x v, (as = old ∧ as' = new ∨ as = new ∧ as' = old) → as' ∈ t.spaces →
          Maps t.sys t.spaces as i j frame → frame + kseg0 ≤ x → x < frame + kseg0 + pageSize →
          VmSys.pages { t.sys with kern := { t.sys.kern with
            mem := Function.update t.sys.kern.mem x v } } as' = t.sys.pages as' := by
  obtain ⟨base, h⟩ := hs.copyable
  obtain ⟨new, sys', hcall, hspaces, htables⟩ := h.asCopy_returns hold hroom
  obtain ⟨h', -, hshows, hpages, -⟩ := (asCopy_shows h.user hold).of_ok hcall
  have hnew : Copyable base ⟨sys', new :: s.spaces, s.blocks⟩ :=
    (AsStep.asCopy hold hcall).copyable h
  have hne : new ≠ old := by
    rintro rfl
    exact (List.nodup_cons.mp h'.inv.nodup).1 hold
  refine ⟨new, sys', hcall, hne, fun i j => ?_, fun i j frame frame' hf hf' => ⟨?_, ?_⟩, hspaces,
    htables, hshows.pages old hold, ?_⟩
  · have hpage := congrArg Option.isSome (congrFun (congrFun hpages i) j)
    simpa only [VmSys.pages, Option.isSome_map] using hpage
  · -- both frames are in use after the copy
    rintro rfl
    have hf₂ := hshows.grows old hold i j frame' hf
    have hapart := h'.apart (List.mem_cons_of_mem new hold) List.mem_cons_self hf₂ hf'
      fun heq => hne heq.1
    unfold pageSize at hapart
    omega
  · exact fun x hx => pages_eq_of_frames (congrFun (congrFun hpages i) j) hf hf' hx
  · intro t hrun as as' i j frame x v hpair has' hmap hlo hhi
    have hdiff : as' ≠ as := by
      rcases hpair with ⟨rfl, rfl⟩ | ⟨rfl, rfl⟩
      · exact hne
      · exact Ne.symm hne
    exact (hnew.run hrun).write_apart has' hdiff hmap hlo hhi

/-- An address space with one page, at `0x400000`. -/
def onePageState : AsState :=
  let s₀ : AsState := ⟨twentyPageSys, [], []⟩
  let as := (asCreate s₀.sys).valueD 0
  let s₁ : AsState :=
    ⟨(asCreate s₀.sys).stateD s₀.sys, if as = 0 then s₀.spaces else as :: s₀.spaces, []⟩
  { s₁ with sys := (vmFault as vmFaultWrite 0x400000 s₁.sys).stateD s₁.sys }

theorem onePageState_reachable : onePageState.Reachable :=
  ⟨twentyPageVm, twentyPageSys, fun _ => default, ⟨by decide, by decide⟩, rfl,
    ⟨rfl, fun _ _ => rfl, fun _ _ => rfl⟩,
    (Relation.ReflTransGen.refl.tail
      (.asCreate (Outcome.eq_ok _ _ _ (by decide +kernel)))).tail
        (.vmFault (Or.inr (by decide +kernel)) (Outcome.eq_ok _ () _ (by decide +kernel)))⟩

/-- The copy of this address space has the page. -/
theorem asCopy_exact_onePage :
    onePageState.sys.frame? 0x80021000 1 0 = some 0x26000 ∧
      ∃ new sys', asCopy 0x80021000 onePageState.sys = .ok new sys' ∧
        (sys'.frame? new 1 0).isSome = true := by
  have hpage : onePageState.sys.frame? 0x80021000 1 0 = some 0x26000 := by decide +kernel
  have hold : 0x80021000 ∈ onePageState.spaces := by decide +kernel
  obtain ⟨new, sys', hcall, -, hsome, -⟩ :=
    asCopy_exact onePageState_reachable hold (by decide +kernel)
  exact ⟨hpage, new, sys', hcall, by rw [hsome, hpage]; rfl⟩

end Os161
