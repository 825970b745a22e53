import Mathlib.Tactic
import Os161.Asst1.Stoplight

/-!
# Admission to the intersection (`kern/asst1/stoplight.c`)

The functions mean to have at most three cars on the way that go straight on or turn left, so that
never four cars hold a quadrant each and wait for the next one in a circle. The admission code does
not achieve this. After three cars have been admitted `indicator` is 0, and every car that leaves
while it is gives up `global`, also when `global` is not held any more; the test of `totalcars` is
made before `P(global)`, so its outcome may be out of date; and `totalcars--` is not protected. With
six cars the count of `global` gets to 2 and four cars end up in a circle (`circle_of_four`).

Where these three things do not happen (`Careful`) the admission does what it is for
(`admission_careful`).
-/

namespace Os161.Stoplight

open Interleaving

/-! ## Places of the admission code -/

/-- Between `P(global)` and the point where the car has either given `global` up or is on its way
without having done so. -/
def Car.inEntry (car : Car) : Bool :=
  match car.pc with
  | .incRead | .incWrite _ | .incTest | .setFull | .vGlobal => true
  | _ => false

/-- Between the two halves of `totalcars++` or `totalcars--`. -/
def Car.updating (car : Car) : Bool :=
  match car.pc with
  | .incWrite _ | .decWrite _ => true
  | _ => false

/-- Between `totalcars++` and `totalcars--`: inside the intersection. -/
def Car.inside (car : Car) : Bool :=
  match car.pc with
  | .incTest | .setFull | .vGlobal | .setFree | .run _ | .decRead | .decWrite _ => true
  | _ => false

/-- Inside, going straight on or turning left. -/
def Car.crosses (car : Car) : Bool := car.inside && car.turn != some .right

/-- The quadrant at whose `P` a car is. -/
def Car.waitsFor (car : Car) : Option Quadrant :=
  match car.pc with
  | .run (.sem (.p q) :: _) => some q
  | _ => none

/-- Four cars, each of which holds one quadrant and waits for the one that the next car holds. -/
def Circle (tr : List (Event Act)) (t : State Shared Car) : Prop :=
  ∃ (i : Fin 4 → ℕ) (q : Fin 4 → Quadrant), Function.Injective i ∧
    ∀ k, (∀ q', Inside (own (i k) tr) q' ↔ q' = q k) ∧
      (t.threads[i k]?).bind Car.waitsFor = some (q (k + 1))

/-! ## The circle -/

/-- Two cars that go straight on, and four more, one from each side. -/
def sixCars : List (Choice Car Unit) :=
  [.spawn ⟨0, 0, 2, .approach⟩, .spawn ⟨1, 2, 0, .approach⟩, .spawn ⟨2, 0, 2, .approach⟩,
    .spawn ⟨3, 1, 3, .approach⟩, .spawn ⟨4, 2, 0, .approach⟩, .spawn ⟨5, 3, 1, .approach⟩]

/-- The car `i` makes `n` steps. -/
def drive (i n : ℕ) : List (Choice Car Unit) := List.replicate n (.thread i ())

/-- All cars but the third find the intersection empty. The first three are admitted, which sets
`indicator` to 0, and the first two leave. -/
def firstTwo : List (Choice Car Unit) :=
  sixCars ++ (drive 3 2 ++ drive 4 2 ++ drive 5 2 ++ drive 0 8 ++ drive 1 8 ++ drive 2 7 ++
    drive 0 13 ++ drive 1 13)

/-- The last three are admitted, and all four cars go into their first quadrant. -/
def lastFour : List (Choice Car Unit) :=
  drive 3 6 ++ drive 4 5 ++ drive 5 5 ++ drive 2 3 ++ drive 3 3 ++ drive 4 3 ++ drive 5 3

/-- Where the first two cars have left. -/
def twoLeft : State Shared Car := (cars.after firstTwo init).2

theorem circle_of_four :
    ∃ tr₁ t₁ tr₂ t₂, Run cars.Step init tr₁ t₁ ∧ t₁.shared.global = 2 ∧ Run cars.Step t₁ tr₂ t₂ ∧
      t₂.threads.countP Car.crosses = 4 ∧ Circle (tr₁ ++ tr₂) t₂ := by
  have hrun₁ : Run cars.Step init (cars.after firstTwo init).1 twoLeft :=
    run_after (by decide)
  have hrun₂ : Run cars.Step twoLeft (cars.after lastFour twoLeft).1
      (cars.after lastFour twoLeft).2 :=
    run_after (by decide)
  exact ⟨_, _, _, _, hrun₁, by decide, hrun₂, by decide,
    ![2, 5, 4, 3], ![0, 3, 2, 1], by decide, by decide⟩

/-! ## Careful cars -/

/-- The step that the car is about to make is not one of those that go wrong: what it has found out
about `totalcars` is still so when it gets `global`; no other car is between the two halves of an
update when it begins one; and it gives up `global` on leaving only if that is held, and not by a
car that is about to give it up itself. -/
def Car.Careful (t : State Shared Car) (car : Car) : Prop :=
  match car.pc with
  | .pGlobal => t.shared.totalcars < car.limit
  | .incRead | .decRead => ∀ car' ∈ t.threads, car'.updating = false
  | .vExit => t.shared.global = 0 ∧ ∀ car' ∈ t.threads, car'.inEntry = false
  | _ => True

/-- The steps of careful cars. -/
def Careful (t : State Shared Car) : Choice Car Unit → Prop
  | .thread i _ => ∀ car ∈ t.threads[i]?, car.Careful t
  | _ => True

/-- What careful cars keep: the count is right, also as read by a car that is updating it, of which
there is at most one; at most one car is at the entry or can get there; a car at the entry has room;
and at most three cars cross. -/
structure Admitted (m : Shared) (ls : List Car) : Prop where
  count : m.totalcars = total (share Car.inside) ls
  current : ∀ car ∈ ls, ∀ v, car.pc = .incWrite v ∨ car.pc = .decWrite v → v = m.totalcars
  one : total (share Car.updating) ls ≤ 1
  entry : m.global + total (share Car.inEntry) ls ≤ 1
  room : ∀ car ∈ ls, (car.pc = .incRead ∨ ∃ v, car.pc = .incWrite v) → m.totalcars < car.limit
  three : total (share Car.crosses) ls ≤ 3

section Moves

variable {m m' : Shared} {car car' : Car} {es : List Act}

/-- An update by a car that has read the right count moves it with the car. -/
theorem Moves.count (h : Moves m car es m' car')
    (hcurrent : ∀ v, car.pc = .incWrite v ∨ car.pc = .decWrite v → v = m.totalcars) :
    m'.totalcars - share Car.inside car' = m.totalcars - share Car.inside car := by
  cases h with
  | incWrite hpc =>
    obtain rfl := hcurrent _ (.inl hpc)
    simp [share, Car.inside, Car.goto, hpc]
  | decWrite hpc =>
    obtain rfl := hcurrent _ (.inr hpc)
    simp [share, Car.inside, Car.goto, hpc]
  | act hpc hact => simp [share, Car.inside, Car.goto, hpc, (doAct_vars hact).2.2]
  | _ hpc => simp [share, Car.inside, Car.goto, hpc]

/-- Only a car that leaves gives `global` up without having got it. -/
theorem Moves.entry (h : Moves m car es m' car') (hpc : car.pc ≠ .vExit) :
    (m'.global : ℤ) + share Car.inEntry car' ≤ m.global + share Car.inEntry car := by
  cases h with
  | pGlobal hpc hpos =>
    simp [share, Car.inEntry, Car.goto, hpc]
    omega
  | act hpc hact => simp [share, Car.inEntry, Car.goto, hpc, (doAct_vars hact).1]
  | vExit hpc' => exact absurd hpc' hpc
  | _ hpc => simp [share, Car.inEntry, Car.goto, hpc]

/-- A car that is updating has just read the count. -/
theorem Moves.reads (h : Moves m car es m' car') {v : ℤ}
    (hv : car'.pc = .incWrite v ∨ car'.pc = .decWrite v) :
    (car.pc = .incRead ∨ car.pc = .decRead) ∧ (car'.pc = .incWrite v → car.pc = .incRead) ∧
      v = m.totalcars ∧ m' = m := by
  cases h with
  | incRead hpc => simp_all [Car.goto]
  | decRead hpc => simp_all [Car.goto]
  | _ => simp [Car.goto] at hv

/-- Only a car that is updating changes the count. -/
theorem Moves.writes (h : Moves m car es m' car') :
    m'.totalcars = m.totalcars ∨ car.updating = true := by
  cases h with
  | incWrite hpc => exact .inr (by simp [Car.updating, hpc])
  | decWrite hpc => exact .inr (by simp [Car.updating, hpc])
  | act hpc hact => exact .inl (doAct_vars hact).2.2
  | _ => exact .inl rfl

/-- A car that has just got to the entry has found room. -/
theorem Moves.arrives (h : Moves m car es m' car') (hpc' : car'.pc = .incRead) :
    car.pc = .pGlobal ∧ m'.totalcars = m.totalcars := by
  cases h with
  | pGlobal hpc hpos => exact ⟨hpc, rfl⟩
  | _ => simp [Car.goto] at hpc'

/-- A car that leaves. -/
theorem Moves.exits (h : Moves m car es m' car') (hpc : car.pc = .vExit) :
    m'.global = m.global + 1 ∧ car'.pc = .done := by
  cases h with
  | vExit => exact ⟨rfl, rfl⟩
  | _ hpc' => simp [hpc] at hpc'

/-- Only at the entry does the count get larger. -/
theorem Moves.totalcars_le (h : Moves m car es m' car')
    (hcurrent : ∀ v, car.pc = .incWrite v ∨ car.pc = .decWrite v → v = m.totalcars)
    (hpc : ∀ v, car.pc ≠ .incWrite v) : m'.totalcars ≤ m.totalcars := by
  cases h with
  | incWrite hpc' => exact absurd hpc' (hpc _)
  | decWrite hpc' =>
    obtain rfl := hcurrent _ (.inr hpc')
    exact sub_le_self _ zero_le_one
  | act hpc' hact => exact (doAct_vars hact).2.2.le
  | _ => exact le_rfl

/-- A car begins to cross where it is counted. -/
theorem Moves.crosses (h : Moves m car es m' car') (hpc : ∀ v, car.pc ≠ .incWrite v) :
    share Car.crosses car' ≤ share Car.crosses car := by
  cases h with
  | incWrite hpc' => exact absurd hpc' (hpc _)
  | decWrite hpc => exact (by simp [share, Car.crosses, Car.inside, Car.goto] :
      share Car.crosses (car.goto .indTest) = 0).trans_le (share_nonneg Car.crosses car)
  | _ hpc => simp [share, Car.crosses, Car.inside, Car.turn, Car.goto, hpc]

theorem Moves.turn (h : Moves m car es m' car') : car'.turn = car.turn := by
  cases h <;> rfl

end Moves

theorem Car.exists_of_updating {car : Car} (h : car.updating = true) :
    ∃ v, car.pc = .incWrite v ∨ car.pc = .decWrite v := by
  unfold Car.updating at h
  split at h
  case h_1 v hpc => exact ⟨v, .inl hpc⟩
  case h_2 v hpc => exact ⟨v, .inr hpc⟩
  case h_3 => cases h

theorem Car.inEntry_of_pc {car : Car} (h : car.pc = .incRead ∨ ∃ v, car.pc = .incWrite v) :
    0 < share Car.inEntry car := by
  rcases h with h | ⟨v, h⟩
  · simp [share, Car.inEntry, h]
  · simp [share, Car.inEntry, h]

/-- Cars that do not turn right have room for three. -/
theorem Car.limit_le {car : Car} (h : car.turn ≠ some .right) : car.limit ≤ 3 := by
  unfold Car.limit
  cases hturn : car.turn with
  | none => simp
  | some turn =>
    cases turn with
    | right => exact absurd hturn h
    | straight => simp [Turn.limit]
    | left => simp [Turn.limit]

namespace Admitted

variable {m m' : Shared} {ls : List Car} {i : ℕ} {car car' : Car} {es : List Act}

/-- Two cars that are updating are the same. -/
theorem updating_unique (h : Admitted m ls) (hcar : ls[i]? = some car) {j : ℕ} {car₂ : Car}
    (hcar₂ : ls[j]? = some car₂) (hup : car.updating = true) (hup₂ : car₂.updating = true) :
    i = j :=
  eq_of_total_le_one (fun car _ => share_nonneg Car.updating car) h.one hcar hcar₂
    (by simp [share, hup]) (by simp [share, hup₂])

/-- Two cars at the entry are the same. -/
theorem entry_unique (h : Admitted m ls) (hcar : ls[i]? = some car) {j : ℕ} {car₂ : Car}
    (hcar₂ : ls[j]? = some car₂) (hin : 0 < share Car.inEntry car)
    (hin₂ : 0 < share Car.inEntry car₂) : i = j := by
  have hentry := h.entry
  exact eq_of_total_le_one (fun car _ => share_nonneg Car.inEntry car) (by omega) hcar hcar₂ hin
    hin₂

/-- Nobody updates what another car has read. -/
theorem current_step (h : Admitted m ls) (hcar : ls[i]? = some car)
    (hmoves : Moves m car es m' car') (c : Car) (hc : c ∈ ls.set i car') (v : ℤ)
    (hv : c.pc = .incWrite v ∨ c.pc = .decWrite v) : v = m'.totalcars := by
  rcases mem_set_cases hc with rfl | ⟨j, hj, hcj⟩
  · obtain ⟨-, -, hv, rfl⟩ := hmoves.reads hv
    exact hv
  · have hup : c.updating = true := by rcases hv with hv | hv <;> simp [Car.updating, hv]
    rcases hmoves.writes with hsame | hup'
    · rw [hsame]
      exact h.current c (List.mem_of_getElem? hcj) v hv
    · exact absurd (h.updating_unique hcj hcar hup hup') hj

/-- A careful car begins an update only when nobody is updating. -/
theorem one_step (h : Admitted m ls) (hcar : ls[i]? = some car) (hcareful : car.Careful ⟨m, ls⟩)
    (hmoves : Moves m car es m' car') : total (share Car.updating) (ls.set i car') ≤ 1 := by
  have hone := h.one
  have hpos := share_nonneg Car.updating car
  rw [total_set _ hcar]
  by_cases hup : car'.updating = true
  · obtain ⟨v, hv⟩ := Car.exists_of_updating hup
    have hnone : ∀ c ∈ ls, c.updating = false := by
      rcases (hmoves.reads hv).1 with hpc | hpc
      · simpa only [Car.Careful, hpc] using hcareful
      · simpa only [Car.Careful, hpc] using hcareful
    have hzero := total_share_eq_zero hnone
    have hcar1 : share Car.updating car' = 1 := by simp [share, hup]
    omega
  · have hcar0 : share Car.updating car' = 0 := by simp [share, hup]
    omega

/-- A careful car that leaves gives `global` up for the car that has kept it. -/
theorem entry_step (h : Admitted m ls) (hcar : ls[i]? = some car) (hcareful : car.Careful ⟨m, ls⟩)
    (hmoves : Moves m car es m' car') :
    (m'.global : ℤ) + total (share Car.inEntry) (ls.set i car') ≤ 1 := by
  have hentry := h.entry
  rw [total_set _ hcar]
  by_cases hpc : car.pc = .vExit
  · obtain ⟨hglobal, hnone⟩ : m.global = 0 ∧ ∀ c ∈ ls, c.inEntry = false := by
      simpa only [Car.Careful, hpc] using hcareful
    have hzero := total_share_eq_zero hnone
    obtain ⟨hm', hcar'⟩ := hmoves.exits hpc
    have hcar0 : share Car.inEntry car = 0 := by simp [share, Car.inEntry, hpc]
    have hcar1 : share Car.inEntry car' = 0 := by simp [share, Car.inEntry, hcar']
    omega
  · have hstep := hmoves.entry hpc
    omega

/-- A careful car gets to the entry only while there is room, and nobody else uses it up. -/
theorem room_step (h : Admitted m ls) (hcar : ls[i]? = some car) (hcareful : car.Careful ⟨m, ls⟩)
    (hmoves : Moves m car es m' car') (c : Car) (hc : c ∈ ls.set i car')
    (hpc : c.pc = .incRead ∨ ∃ v, c.pc = .incWrite v) : m'.totalcars < c.limit := by
  rcases mem_set_cases hc with rfl | ⟨j, hj, hcj⟩
  · have hlimit : c.limit = car.limit := by rw [Car.limit, hmoves.turn, Car.limit]
    rw [hlimit]
    rcases hpc with hpc | ⟨v, hpc⟩
    · obtain ⟨hpc, hsame⟩ := hmoves.arrives hpc
      rw [hsame]
      simpa only [Car.Careful, hpc] using hcareful
    · obtain ⟨-, hread, -, rfl⟩ := hmoves.reads (.inl hpc)
      exact h.room car (List.mem_of_getElem? hcar) (.inl (hread hpc))
  · have hroom := h.room c (List.mem_of_getElem? hcj) hpc
    by_cases hinc : ∃ v, car.pc = .incWrite v
    · have hin := Car.inEntry_of_pc (.inr hinc)
      exact absurd (h.entry_unique hcj hcar (Car.inEntry_of_pc hpc) hin) hj
    · have hle := hmoves.totalcars_le (h.current car (List.mem_of_getElem? hcar))
        fun v hv => hinc ⟨v, hv⟩
      omega

/-- A car that is counted to cross is at most the third. -/
theorem three_step (h : Admitted m ls) (hcar : ls[i]? = some car)
    (hmoves : Moves m car es m' car') : total (share Car.crosses) (ls.set i car') ≤ 3 := by
  have hthree := h.three
  rw [total_set _ hcar]
  by_cases hinc : ∃ v, car.pc = .incWrite v
  · by_cases hturn : car.turn = some .right
    · have hcar' : share Car.crosses car' = 0 := by
        simp [share, Car.crosses, hmoves.turn, hturn]
      have hpos := share_nonneg Car.crosses car
      omega
    · have hroom := h.room car (List.mem_of_getElem? hcar) (.inr hinc)
      have hlimit := Car.limit_le hturn
      have hle : total (share Car.crosses) ls ≤ total (share Car.inside) ls := by
        refine total_le_total fun c _ => ?_
        cases hin : c.inside <;> simp [share, Car.crosses, hin]
        split <;> omega
      have hone : share Car.crosses car' ≤ 1 := by
        unfold share
        split <;> omega
      have hpos := share_nonneg Car.crosses car
      have hcount := h.count
      omega
  · have hstep := hmoves.crosses fun v hv => hinc ⟨v, hv⟩
    omega

/-- A step of a careful car. -/
theorem step (h : Admitted m ls) (hcar : ls[i]? = some car) (hcareful : car.Careful ⟨m, ls⟩)
    (hmoves : Moves m car es m' car') : Admitted m' (ls.set i car') where
  count := by
    have hcount := hmoves.count (h.current car (List.mem_of_getElem? hcar))
    rw [total_set _ hcar, ← h.count]
    omega
  current := h.current_step hcar hmoves
  one := h.one_step hcar hcareful hmoves
  entry := h.entry_step hcar hcareful hmoves
  room := h.room_step hcar hcareful hmoves
  three := h.three_step hcar hmoves

/-- A new car. -/
theorem spawn (h : Admitted m ls) (hpc : car.pc = .approach) : Admitted m (ls ++ [car]) := by
  have hshare : ∀ p : Car → Bool, p car = false →
      total (share p) (ls ++ [car]) = total (share p) ls := by
    intro p hp
    rw [total_append, share, hp]
    simp
  have hcross : car.crosses = false := by simp [Car.crosses, Car.inside, hpc]
  refine ⟨?_, fun c hc => ?_, ?_, ?_, fun c hc => ?_, ?_⟩
  · rw [hshare _ (by simp [Car.inside, hpc])]
    exact h.count
  · rcases List.mem_append.mp hc with hc | hc
    · exact h.current c hc
    · obtain rfl := List.mem_singleton.mp hc
      simp [hpc]
  · rw [hshare _ (by simp [Car.updating, hpc])]
    exact h.one
  · rw [hshare _ (by simp [Car.inEntry, hpc])]
    exact h.entry
  · rcases List.mem_append.mp hc with hc | hc
    · exact h.room c hc
    · obtain rfl := List.mem_singleton.mp hc
      simp [hpc]
  · rw [hshare _ hcross]
    exact h.three

end Admitted

/-! ## Runs of careful cars -/

variable {tr : List (Event Act)} {t : State Shared Car}

/-- Careful runs keep the invariant. -/
theorem admitted_of_run (hrun : Run (cars.StepWhere Careful) init tr t) :
    Admitted t.shared t.threads := by
  refine hrun.invariant (I := fun _ t => Admitted t.shared t.threads) ?_ ?_
  · exact ⟨rfl, by simp [init], by simp [init, total], by simp [init, total, Shared.init],
      by simp [init], by simp [init, total]⟩
  · intro tr t es u _ h hstep
    cases hstep with
    | thread hcar hcareful hstep => exact h.step hcar (hcareful _ hcar) (step_moves hstep)
    | others _ hstep => cases hstep
    | spawn _ hstart => exact h.spawn (of_decide_eq_true hstart).1

theorem length_route_right (dir dest : Direction)
    (h : approachintersection dir dest = some .right) : (route dir dest).length = 1 := by
  revert dir dest
  decide

/-- A car that holds a quadrant and waits for another one does not turn right. -/
theorem crosses_of_waits (hrun : Run cars.Step init tr t) {i : ℕ} {car : Car} {q q' : Quadrant}
    (hcar : t.threads[i]? = some car) (hin : Inside (own i tr) q)
    (hwaits : car.waitsFor = some q') : car.crosses = true := by
  obtain ⟨todo, hpc⟩ : ∃ todo, car.pc = .run (.p q' :: todo) := by
    unfold Car.waitsFor at hwaits
    split at hwaits
    case h_1 q'' todo hpc =>
      cases hwaits
      exact ⟨todo, hpc⟩
    case h_2 => cases hwaits
  have hroute : entered (own i tr) ++ entered car.todo = route car.dir car.dest := by
    rw [← entered_way, ← history hrun hcar, entered, entered, entered, sems_append,
      List.filterMap_append]
  -- it has entered one quadrant and has another one to enter
  have hdone := List.length_pos_of_mem hin.1
  have htodo : 0 < (entered car.todo).length := by
    rw [Car.todo, hpc]
    exact Nat.succ_pos _
  have hlen := congrArg List.length hroute
  rw [List.length_append] at hlen
  have hturn : car.turn ≠ some .right := by
    intro hright
    have hone := length_route_right car.dir car.dest hright
    omega
  simp [Car.crosses, Car.inside, hpc, hturn]

/-- **Careful cars.** In every run of careful cars the count of `global` is at most 1, at most three
cars that go straight on or turn left are inside, and there is no circle of four. -/
theorem admission_careful (hrun : Run (cars.StepWhere Careful) init tr t) :
    t.shared.global ≤ 1 ∧ t.threads.countP Car.crosses ≤ 3 ∧ ¬ Circle tr t := by
  have h := admitted_of_run hrun
  have hthree := h.three
  have hentry := h.entry
  rw [total_share] at hentry
  refine ⟨by omega, ?_, ?_⟩
  · rw [total_share] at hthree
    omega
  rintro ⟨i, q, hinj, hall⟩
  have hfour : ((List.ofFn i).length : ℤ) ≤ total (share Car.crosses) t.threads := by
    refine length_le_total (fun car _ => share_nonneg Car.crosses car) (List.nodup_ofFn.mpr hinj) ?_
    intro j hj
    obtain ⟨k, rfl⟩ := (List.mem_ofFn' i j).mp hj
    obtain ⟨hin, hwaits⟩ := hall k
    obtain ⟨car, hcar, hwaits⟩ := Option.bind_eq_some_iff.mp hwaits
    have hcross := crosses_of_waits (run_of_where hrun) hcar ((hin (q k)).mpr rfl) hwaits
    exact ⟨car, hcar, by simp [share, hcross]⟩
  rw [List.length_ofFn] at hfour
  omega

instance (t : State Shared Car) (car : Car) : Decidable (car.Careful t) := by
  unfold Car.Careful
  split <;> infer_instance

instance (t : State Shared Car) (c : Choice Car Unit) : Decidable (Careful t c) := by
  unfold Careful
  split <;> infer_instance

/-- Three cars are admitted one after the other, and the first one goes and lets another one in. -/
def threeCars : List (Choice Car Unit) :=
  [.spawn ⟨0, 0, 2, .approach⟩, .spawn ⟨1, 1, 3, .approach⟩, .spawn ⟨2, 2, 3, .approach⟩,
    .spawn ⟨3, 3, 1, .approach⟩] ++
    (drive 0 8 ++ drive 1 8 ++ drive 2 7 ++ drive 0 13 ++ drive 3 7)

theorem admission_careful_threeCars :
    ∃ tr t, Run (cars.StepWhere Careful) init tr t ∧ t.threads.countP Car.crosses = 3 ∧
      t.shared.global ≤ 1 ∧ ¬ Circle tr t := by
  have hrun : Run (cars.StepWhere Careful) init (cars.afterWhere Careful threeCars init).1
      (cars.afterWhere Careful threeCars init).2 :=
    run_afterWhere (by decide)
  exact ⟨_, _, hrun, by decide, (admission_careful hrun).1, (admission_careful hrun).2.2⟩

end Os161.Stoplight
