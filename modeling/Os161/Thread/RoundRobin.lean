import Os161.Thread.Partition

/-!
# The run queue is first in, first out

Nothing enters the run queue but at its tail and nothing leaves it but its head, which then runs.
So a thread that is ready is overtaken by no thread behind it (`no_overtaking`).
-/

namespace Os161.Threads

variable {π : Type} {code : Code π} {s s' : Sys π} {t : Tid} {es : List Event}

theorem TryLock.runq {l : Lock} {spl : ℕ} {cv : Option Cv} {next : π}
    (h : TryLock t l spl cv next s es s') : s'.runq = s.runq := by cases h <;> rfl

theorem TryP.runq {n spl : ℕ} {next : π} (h : TryP t n spl next s es s') :
    s'.runq = s.runq := by cases h <;> rfl

theorem Resume.runq (h : Resume t s es s') : s'.runq = s.runq := by
  cases h with
  | yielded hk => rfl
  | slept hk => rfl
  | locking hk htry => exact htry.runq
  | passing hk htry => exact htry.runq
  | waiting hk htry => exact htry.runq

theorem OpStep.runq {o : Op π} (h : OpStep t s o es s') : s.runq <+: s'.runq := by
  cases h with
  | yield => exact List.prefix_append _ _
  | wakeup hspl => exact List.prefix_append _ _
  | wakeone hspl => exact ⟨_, (s.wakeFirst_runq _).symm⟩
  | acquire htry => exact htry.runq ▸ List.prefix_rfl
  | wait hown => exact List.prefix_append _ _
  | signal => exact ⟨_, (s.wakeFirst_runq _).symm⟩
  | broadcast => exact List.prefix_append _ _
  | p htry => exact htry.runq ▸ List.prefix_rfl
  | v hcount => exact List.prefix_append _ _
  | _ => exact List.prefix_rfl

/-- One step. -/
theorem SStep.runq (h : SStep code s es s') : s.runq <+: s'.runq ∨ ∃ u, s.runq = u :: s'.runq := by
  cases h with
  | op hcur hk hcode hop => exact .inl hop.runq
  | release hcur hk => exact .inl (List.prefix_append _ _)
  | forked hcur hk => exact .inl (List.prefix_append _ _)
  | forkFails hcur hk => exact .inl List.prefix_rfl
  | timer second hcur hspl hk =>
    cases second with
    | true => exact .inl ((List.prefix_append _ _).trans (List.prefix_append _ _))
    | false => exact .inl (List.prefix_append _ _)
  | idle second hcur =>
    cases second with
    | true => exact .inl (List.prefix_append _ _)
    | false => exact .inl List.prefix_rfl
  | device hon hcount => exact .inl (List.prefix_append _ _)
  | start hcur hq hk => exact .inr ⟨_, hq⟩
  | switch hcur hq hres => exact .inr ⟨_, by rw [hres.runq]; exact hq⟩

theorem Sys.Placed.nodup_ready (h : s.Placed) : (s.curthread.toList ++ s.runq).Nodup :=
  h.nodup.of_append_left.of_append_left

/-- **Round robin.** In any run from boot the thread `t` is in the run queue, with the threads
`ahead` before it and `behind` after it. As long as it stays there, those before it are the last of
`ahead`, and those of `behind` wait behind it: none of them runs. -/
theorem no_overtaking {p : π} {count : ℕ → ℤ} {k₀ k k' : Kernel π} {tr tr' : List Event}
    {ahead behind : List Tid} (h0 : Booted p count k₀) (h : Run (Step code) k₀ tr k)
    (hq : k.runqueue.toList = ahead ++ t :: behind)
    (hrun : Run (fun k es k' => Step code k es k' ∧ t ∈ k'.runqueue.toList) k tr' k') :
    ∃ ahead' later, ahead' <:+ ahead ∧ k'.runqueue.toList = ahead' ++ t :: (behind ++ later) ∧
      ∀ u ∈ t :: behind, k'.curthread ≠ some u := by
  obtain ⟨hok, hboot, hsim⟩ := Run.refines h0 h
  obtain ⟨-, hP, ahead', later, hahead, hq'⟩ := hrun.invariant
    (I := fun _ k' => k'.Ok ∧ k'.view.Placed ∧ ∃ ahead' later, ahead' <:+ ahead ∧
      k'.view.runq = ahead' ++ t :: (behind ++ later))
    ⟨hok, .of_run hboot hsim, ahead, [], List.suffix_rfl, by rw [List.append_nil]; exact hq⟩
    (by
      rintro _ k₁ _ k₂ - ⟨hok₁, hP₁, ahead₁, later₁, hahead, hq₁⟩ ⟨hstep, hstays⟩
      obtain ⟨hok₂, hs⟩ := hstep.refines hok₁
      refine ⟨hok₂, hs.placed hP₁, ?_⟩
      rcases hs.runq with ⟨new, hnew⟩ | ⟨u, hu⟩
      · exact ⟨ahead₁, later₁ ++ new, hahead, by simp [← hnew, hq₁]⟩
      · cases ahead₁ with
        -- the head would be `t`, which is in the queue only once
        | nil =>
          obtain rfl : u = t := (List.cons.inj (hu.symm.trans hq₁)).1
          have hnodup := hP₁.nodup_ready.of_append_right
          rw [hu] at hnodup
          exact absurd hstays (List.nodup_cons.mp hnodup).1
        | cons v ahead₂ =>
          obtain ⟨-, hrest⟩ := List.cons.inj (hu.symm.trans hq₁)
          exact ⟨ahead₂, later₁, (List.suffix_cons v ahead₂).trans hahead, hrest⟩)
  refine ⟨ahead', later, hahead, hq', fun u hu hcur => ?_⟩
  have hmem : u ∈ k'.view.runq := by
    rw [hq', ← List.cons_append]
    exact List.mem_append_right _ (List.mem_append_left _ hu)
  exact (List.nodup_append.mp hP.nodup_ready).2.2 u (Option.mem_toList.mpr hcur) u hmem rfl

/-- The first thread forks and yields. -/
theorem no_overtaking_yield :
    let k := after (forkNow ++ [.op (.yield ())]) (bootedWith [])
    ∃ ahead' later, ahead' <:+ [] ∧ k.runqueue.toList = ahead' ++ 1 :: ([] ++ later) ∧
      ∀ u ∈ [1], k.curthread ≠ some u := by
  have hboot : Booted () (fun _ => 0) (bootedWith []) := booted_bootedWith (by decide)
  have hrun : Run (Step anyCode) _ _ (after forkNow (bootedWith [])) := run_after (by decide)
  obtain ⟨es, hstep⟩ := step_after forkNow (.op (.yield ())) (bootedWith []) (by decide)
  exact no_overtaking hboot hrun (by decide)
    (.single ⟨⟨_, Core.enabled_of_ready (by decide), hstep⟩, by decide⟩)

end Os161.Threads
