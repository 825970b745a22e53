import Mathlib.Tactic
import Os161.Common.Interleaving

/-!
# The stoplight (`kern/asst1/stoplight.c`)

Cars approach an intersection of four quadrants, each with a semaphore of its own. The functions
`gostraight`, `turnleft` and `turnright` begin with the same code, which admits a car to the
intersection, then take and give up the quadrants on the way of the car, and end with the same code,
which lets the car go. Every read and every write of the two counters is a step of its own, and so
is every `P`, every `V` and every message.

The semaphores of the quadrants keep the cars apart whatever the admission does (`cars_apart`).
-/

namespace Os161.Stoplight

open Interleaving

/-! ## The cars -/

/-- Where a car comes from or goes to: north, east, south, west. -/
abbrev Direction := Fin 4

/-- The quadrants, by the number of their semaphore: `sem0` is NW, `sem1` NE, `sem2` SE and `sem3`
SW. -/
abbrev Quadrant := Fin 4

instance neZero_four : NeZero 4 := ⟨by decide⟩

/-- The first argument of `message`. -/
inductive Msg where
  | approaching
  | region1
  | region2
  | region3
  | leaving
deriving DecidableEq

/-- `P` and `V` on the semaphore of a quadrant. -/
inductive SemOp where
  | p (q : Quadrant)
  | v (q : Quadrant)
deriving DecidableEq

/-- What a car does on its way. -/
inductive Act where
  | message (msg : Msg) (carnumber : ℕ) (cardirection destdirection : Direction)
  | sem (op : SemOp)
deriving DecidableEq

/-- `P(semq)`. -/
abbrev Act.p (q : Quadrant) : Act := .sem (.p q)

/-- `V(semq)`. -/
abbrev Act.v (q : Quadrant) : Act := .sem (.v q)

/-- The part of `gostraight` at `carrunning`. -/
def gostraight (cardirection : Direction) (carnumber : ℕ) : List Act :=
  match cardirection with
  | 0 => [.message .approaching carnumber cardirection 2, .p 0,
      .message .region1 carnumber cardirection 2, .p 3,
      .message .region2 carnumber cardirection 2, .v 0,
      .message .leaving carnumber cardirection 2, .v 3]
  | 1 => [.message .approaching carnumber cardirection 3, .p 1,
      .message .region1 carnumber cardirection 3, .p 0,
      .message .region2 carnumber cardirection 3, .v 1,
      .message .leaving carnumber cardirection 3, .v 0]
  | 2 => [.message .approaching carnumber cardirection 0, .p 2,
      .message .region1 carnumber cardirection 0, .p 1,
      .message .region2 carnumber cardirection 0, .v 2,
      .message .leaving carnumber cardirection 0, .v 1]
  | 3 => [.message .approaching carnumber cardirection 1, .p 3,
      .message .region1 carnumber cardirection 1, .p 2,
      .message .region2 carnumber cardirection 1, .v 3,
      .message .leaving carnumber cardirection 1, .v 2]

/-- The part of `turnleft` at `carrunning2`. -/
def turnleft (cardirection : Direction) (carnumber : ℕ) : List Act :=
  match cardirection with
  | 0 => [.message .approaching carnumber cardirection 1, .p 0,
      .message .region1 carnumber cardirection 1, .p 3,
      .message .region2 carnumber cardirection 1, .v 0, .p 2,
      .message .region3 carnumber cardirection 1, .v 3,
      .message .leaving carnumber cardirection 1, .v 2]
  | 1 => [.message .approaching carnumber cardirection 2, .p 1,
      .message .region1 carnumber cardirection 2, .p 0,
      .message .region2 carnumber cardirection 2, .v 1, .p 3,
      .message .region3 carnumber cardirection 2, .v 0,
      .message .leaving carnumber cardirection 2, .v 3]
  | 2 => [.message .approaching carnumber cardirection 3, .p 2,
      .message .region1 carnumber cardirection 3, .p 1,
      .message .region2 carnumber cardirection 3, .v 2, .p 0,
      .message .region3 carnumber cardirection 3, .v 1,
      .message .leaving carnumber cardirection 3, .v 0]
  | 3 => [.message .approaching carnumber cardirection 0, .p 3,
      .message .region1 carnumber cardirection 0, .p 2,
      .message .region2 carnumber cardirection 0, .v 3, .p 1,
      .message .region3 carnumber cardirection 0, .v 2,
      .message .leaving carnumber cardirection 0, .v 1]

/-- The part of `turnright` at `carrunning3`. -/
def turnright (cardirection : Direction) (carnumber : ℕ) : List Act :=
  match cardirection with
  | 0 => [.message .approaching carnumber cardirection 3, .p 0,
      .message .region1 carnumber cardirection 3, .message .leaving carnumber cardirection 3, .v 0]
  | 1 => [.message .approaching carnumber cardirection 0, .p 1,
      .message .region1 carnumber cardirection 0, .message .leaving carnumber cardirection 0, .v 1]
  | 2 => [.message .approaching carnumber cardirection 1, .p 2,
      .message .region1 carnumber cardirection 1, .message .leaving carnumber cardirection 1, .v 2]
  | 3 => [.message .approaching carnumber cardirection 2, .p 3,
      .message .region1 carnumber cardirection 2, .message .leaving carnumber cardirection 2, .v 3]

/-- The three functions. -/
inductive Turn where
  | straight
  | left
  | right
deriving DecidableEq

/-- `approachintersection`, once the two directions are drawn: which function it calls. -/
def approachintersection (cardirection destdirection : Direction) : Option Turn :=
  let d : ℤ := (cardirection : ℤ) - (destdirection : ℤ)
  if d = 1 ∨ d = -3 then some .right
  else if d = 2 ∨ d = -2 then some .straight
  else if d = 3 ∨ d = -1 then some .left
  else none

/-- The number of cars at which a function waits. -/
def Turn.limit : Turn → ℤ
  | .straight => 3
  | .left => 3
  | .right => 4

/-- The way of a car through the intersection. -/
def Turn.way : Turn → Direction → ℕ → List Act
  | .straight => gostraight
  | .left => turnleft
  | .right => turnright

/-- Where a car is in the code. -/
inductive Pc where
  /-- `approachintersection`, with the directions drawn. -/
  | approach
  /-- `if(totalcars>=3) goto checkcars1`. -/
  | check
  /-- `P(global)`. -/
  | pGlobal
  /-- The two halves of `totalcars++`. -/
  | incRead
  | incWrite (v : ℤ)
  /-- `if(totalcars>=3)`. -/
  | incTest
  /-- `indicator=0`. -/
  | setFull
  /-- `V(global)`, then `indicator =1`. -/
  | vGlobal
  | setFree
  /-- On the way, with what is still to do. -/
  | run (todo : List Act)
  /-- The two halves of `totalcars--`. -/
  | decRead
  | decWrite (v : ℤ)
  /-- `if(indicator==0)`. -/
  | indTest
  /-- `V(global)` of a car that leaves. -/
  | vExit
  | done
deriving DecidableEq

/-- A car. -/
structure Car where
  number : ℕ
  dir : Direction
  dest : Direction
  pc : Pc
deriving DecidableEq

/-- The global variables. A semaphore is its count. -/
structure Shared where
  sem : Quadrant → ℕ
  global : ℕ
  indicator : ℤ
  totalcars : ℤ

namespace Car

variable (car : Car)

/-- The car goes on at `pc`. -/
def goto (pc : Pc) : Car := { car with pc := pc }

/-- The function that the car is in. -/
def turn : Option Turn := approachintersection car.dir car.dest

/-- Its limit. A car is never in no function (`turn_eq`). -/
def limit : ℤ := (car.turn.map Turn.limit).getD 0

/-- All that the car does in the intersection. -/
def way : List Act := (car.turn.map fun t => t.way car.dir car.number).getD []

end Car

/-- `P` and `V` on a quadrant, and messages. -/
def doAct (s : Shared) : Act → Option Shared
  | .message .. => some s
  | .sem (.p q) =>
    if 0 < s.sem q then some { s with sem := Function.update s.sem q (s.sem q - 1) } else none
  | .sem (.v q) => some { s with sem := Function.update s.sem q (s.sem q + 1) }

/-- The next step of a car. It blocks in `P` while the count is zero. -/
def step (s : Shared) (car : Car) : Option (List Act × Shared × Car) :=
  match car.pc with
  | .approach =>
    if car.turn = none then some ([], s, car.goto .done) else some ([], s, car.goto .check)
  | .check =>
    if s.totalcars ≥ car.limit then some ([], s, car.goto .check)
    else some ([], s, car.goto .pGlobal)
  | .pGlobal =>
    if 0 < s.global then some ([], { s with global := s.global - 1 }, car.goto .incRead) else none
  | .incRead => some ([], s, car.goto (.incWrite s.totalcars))
  | .incWrite v => some ([], { s with totalcars := v + 1 }, car.goto .incTest)
  | .incTest =>
    if s.totalcars ≥ car.limit then some ([], s, car.goto .setFull)
    else some ([], s, car.goto .vGlobal)
  | .setFull => some ([], { s with indicator := 0 }, car.goto (.run car.way))
  | .vGlobal => some ([], { s with global := s.global + 1 }, car.goto .setFree)
  | .setFree => some ([], { s with indicator := 1 }, car.goto (.run car.way))
  | .run [] => some ([], s, car.goto .decRead)
  | .run (act :: todo) =>
    match doAct s act with
    | some s' => some ([act], s', car.goto (.run todo))
    | none => none
  | .decRead => some ([], s, car.goto (.decWrite s.totalcars))
  | .decWrite v => some ([], { s with totalcars := v - 1 }, car.goto .indTest)
  | .indTest =>
    if s.indicator = 0 then some ([], s, car.goto .vExit) else some ([], s, car.goto .done)
  | .vExit => some ([], { s with global := s.global + 1 }, car.goto .done)
  | .done => none

/-- Any number of cars. `approachintersection` draws the destination until it is another direction
than that of the car. -/
def cars : Interleaving Shared Car Act Unit where
  thread _ _ := step
  others _ _ := none
  start car := car.pc = .approach ∧ car.dir ≠ car.dest

/-- The variables that `createcars` sets up. -/
def Shared.init : Shared := ⟨fun _ => 1, 1, 0, 0⟩

/-- `createcars`, before the first car. -/
def init : State Shared Car := ⟨.init, []⟩

/-! ## Routes -/

/-- The quadrants on the way from one direction to another, where one drives on the right: from the
quadrant where the car comes in, against the clock, to the one where it goes out. -/
def route (dir dest : Direction) : List Quadrant :=
  (List.range (dir - dest).val).map fun k => dir - Fin.ofNat 4 k

/-- Moving from the quadrant `q` on along a route. -/
def moveOn (q : Quadrant) : List Quadrant → List SemOp
  | [] => [.v q]
  | next :: rest => .p next :: .v q :: moveOn next rest

/-- Moving along a route hand over hand: a quadrant is given up only when the next one is taken. -/
def handOverHand : List Quadrant → List SemOp
  | [] => []
  | q :: rest => .p q :: moveOn q rest

/-- The operations on semaphores. -/
def sems (acts : List Act) : List SemOp :=
  acts.filterMap fun
    | .sem op => some op
    | .message .. => none

/-- The quadrants that a car has taken, in order. -/
def entered (acts : List Act) : List Quadrant :=
  (sems acts).filterMap fun
    | .p q => some q
    | .v _ => none

/-- The quadrants that a car has given up, in order. -/
def left (acts : List Act) : List Quadrant :=
  (sems acts).filterMap fun
    | .v q => some q
    | .p _ => none

/-- A car that has done `acts` is between the `P` and the `V` on the semaphore of `q`. -/
def Inside (acts : List Act) (q : Quadrant) : Prop := q ∈ entered acts ∧ q ∉ left acts

instance (acts : List Act) (q : Quadrant) : Decidable (Inside acts q) :=
  inferInstanceAs (Decidable (q ∈ entered acts ∧ q ∉ left acts))

/-- Each of the twelve ways goes along its route hand over hand. -/
theorem sems_way (car : Car) : sems car.way = handOverHand (route car.dir car.dest) := by
  obtain ⟨number, dir, dest, pc⟩ := car
  fin_cases dir <;> fin_cases dest <;> rfl

/-- How many quadrants `q` a car with this much to do will still give up, less those it will still
take. -/
def due (q : Quadrant) (ops : List SemOp) : ℤ := (ops.count (.v q) : ℤ) - ops.count (.p q)

theorem due_append (q : Quadrant) (ops ops' : List SemOp) :
    due q (ops ++ ops') = due q ops + due q ops' := by
  simp only [due, List.count_append]
  push_cast
  ring

/-- Over a whole route nothing is due. -/
theorem due_route (dir dest : Direction) (q : Quadrant) :
    due q (handOverHand (route dir dest)) = 0 := by
  revert dir dest q
  decide

/-- What there is to know about a car at any point of its route. -/
theorem route_facts (dir dest : Direction) (n : Fin 7) :
    let done := (handOverHand (route dir dest)).take n
    let todo := (handOverHand (route dir dest)).drop n
    (∀ q, 0 ≤ due q todo) ∧ (∀ q, .p q ∈ done → .v q ∉ done → 0 < due q todo) ∧
      ∀ q q', [q, q'] <:+: route dir dest → .v q ∈ done → .p q' ∈ done := by
  revert dir dest n
  decide

/-! ## One step of a car -/

/-- What a car does in one step, by the place where it is. -/
inductive Moves (s : Shared) (car : Car) : List Act → Shared → Car → Prop where
  | quit (hpc : car.pc = .approach) (hturn : car.turn = none) : Moves s car [] s (car.goto .done)
  | approach (hpc : car.pc = .approach) : Moves s car [] s (car.goto .check)
  | wait (hpc : car.pc = .check) : Moves s car [] s (car.goto .check)
  | check (hpc : car.pc = .check) : Moves s car [] s (car.goto .pGlobal)
  | pGlobal (hpc : car.pc = .pGlobal) (hpos : 0 < s.global) :
      Moves s car [] { s with global := s.global - 1 } (car.goto .incRead)
  | incRead (hpc : car.pc = .incRead) : Moves s car [] s (car.goto (.incWrite s.totalcars))
  | incWrite {v : ℤ} (hpc : car.pc = .incWrite v) :
      Moves s car [] { s with totalcars := v + 1 } (car.goto .incTest)
  | full (hpc : car.pc = .incTest) : Moves s car [] s (car.goto .setFull)
  | free (hpc : car.pc = .incTest) : Moves s car [] s (car.goto .vGlobal)
  | setFull (hpc : car.pc = .setFull) :
      Moves s car [] { s with indicator := 0 } (car.goto (.run car.way))
  | vGlobal (hpc : car.pc = .vGlobal) :
      Moves s car [] { s with global := s.global + 1 } (car.goto .setFree)
  | setFree (hpc : car.pc = .setFree) :
      Moves s car [] { s with indicator := 1 } (car.goto (.run car.way))
  | act {act : Act} {todo : List Act} {s' : Shared} (hpc : car.pc = .run (act :: todo))
      (hact : doAct s act = some s') : Moves s car [act] s' (car.goto (.run todo))
  | out (hpc : car.pc = .run []) : Moves s car [] s (car.goto .decRead)
  | decRead (hpc : car.pc = .decRead) : Moves s car [] s (car.goto (.decWrite s.totalcars))
  | decWrite {v : ℤ} (hpc : car.pc = .decWrite v) :
      Moves s car [] { s with totalcars := v - 1 } (car.goto .indTest)
  | release (hpc : car.pc = .indTest) (hzero : s.indicator = 0) : Moves s car [] s (car.goto .vExit)
  | leave (hpc : car.pc = .indTest) : Moves s car [] s (car.goto .done)
  | vExit (hpc : car.pc = .vExit) :
      Moves s car [] { s with global := s.global + 1 } (car.goto .done)

variable {s s' : Shared} {car car' : Car} {es : List Act}

theorem step_moves (h : step s car = some (es, s', car')) : Moves s car es s' car' := by
  unfold step at h
  split at h
  case h_1 hpc =>
    split at h <;> cases h
    case isTrue hturn => exact .quit hpc hturn
    case isFalse => exact .approach hpc
  case h_2 hpc =>
    split at h <;> cases h
    case isTrue => exact .wait hpc
    case isFalse => exact .check hpc
  case h_3 hpc =>
    split at h <;> cases h
    case isTrue hpos => exact .pGlobal hpc hpos
  case h_4 hpc => cases h; exact .incRead hpc
  case h_5 v hpc => cases h; exact .incWrite hpc
  case h_6 hpc =>
    split at h <;> cases h
    case isTrue => exact .full hpc
    case isFalse => exact .free hpc
  case h_7 hpc => cases h; exact .setFull hpc
  case h_8 hpc => cases h; exact .vGlobal hpc
  case h_9 hpc => cases h; exact .setFree hpc
  case h_10 hpc => cases h; exact .out hpc
  case h_11 act todo hpc =>
    split at h <;> cases h
    case h_1 hact => exact .act hpc hact
  case h_12 hpc => cases h; exact .decRead hpc
  case h_13 v hpc => cases h; exact .decWrite hpc
  case h_14 hpc =>
    split at h <;> cases h
    case isTrue hzero => exact .release hpc hzero
    case isFalse => exact .leave hpc
  case h_15 hpc => cases h; exact .vExit hpc
  case h_16 => cases h

/-! ## Where cars are -/

/-- What a car still has to do in the intersection. -/
def Car.todo (car : Car) : List Act :=
  match car.pc with
  | .run todo => todo
  | .decRead | .decWrite _ | .indTest | .vExit | .done => []
  | _ => car.way

/-- A car does what it has to do, act by act. -/
theorem Moves.todo (h : Moves s car es s' car') : car.todo = es ++ car'.todo := by
  cases h with
  | quit hpc hturn => simp [Car.todo, Car.goto, hpc, Car.way, hturn]
  | _ => simp only [Car.todo, Car.goto, *, List.nil_append, List.singleton_append] <;> rfl

/-- A car keeps to its route. -/
theorem Moves.route (h : Moves s car es s' car') :
    car'.way = car.way ∧ Stoplight.route car'.dir car'.dest = Stoplight.route car.dir car.dest := by
  cases h <;> exact ⟨rfl, rfl⟩

theorem doAct_sem {act : Act} (h : doAct s act = some s') (q : Quadrant) :
    (s'.sem q : ℤ) = s.sem q + due q (sems [act]) := by
  cases act with
  | message =>
    cases h
    simp [sems, due]
  | sem op =>
    cases op with
    | p q' =>
      simp only [doAct, Option.ite_none_right_eq_some, Option.some.injEq] at h
      obtain ⟨hpos, rfl⟩ := h
      by_cases hq : q = q'
      · subst hq
        simp only [sems, due, Function.update_self, List.filterMap_cons, List.filterMap_nil]
        rw [List.count_singleton_self, List.count_singleton]
        simp only [beq_iff_eq, reduceCtorEq, if_false]
        omega
      · simp [sems, due, hq, Ne.symm hq]
    | v q' =>
      cases h
      by_cases hq : q = q'
      · subst hq
        simp [sems, due]
      · simp [sems, due, hq, Ne.symm hq]

/-- The acts leave the other variables alone. -/
theorem doAct_vars {act : Act} (h : doAct s act = some s') :
    s'.global = s.global ∧ s'.indicator = s.indicator ∧ s'.totalcars = s.totalcars := by
  match act with
  | .message .. =>
    cases h
    exact ⟨rfl, rfl, rfl⟩
  | .sem (.p q) =>
    simp only [doAct, Option.ite_none_right_eq_some, Option.some.injEq] at h
    obtain ⟨-, rfl⟩ := h
    exact ⟨rfl, rfl, rfl⟩
  | .sem (.v q) =>
    cases h
    exact ⟨rfl, rfl, rfl⟩

/-- The semaphores move with the acts. -/
theorem Moves.sem (h : Moves s car es s' car') (q : Quadrant) :
    (s'.sem q : ℤ) = s.sem q + due q (sems es) := by
  cases h with
  | act hpc hact => exact doAct_sem hact q
  | _ => simp [sems, due]

theorem sems_append (acts acts' : List Act) : sems (acts ++ acts') = sems acts ++ sems acts' :=
  List.filterMap_append

/-- Along every run, what a car has done and what it has to do make up its way. -/
theorem history {tr : List (Event Act)} {t : State Shared Car} (hrun : Run cars.Step init tr t)
    {i : ℕ} (hcar : t.threads[i]? = some car) : own i tr ++ car.todo = car.way := by
  refine (own_invariant (S := cars) (J := fun acts car => acts ++ car.todo = car.way) ?_ ?_ hrun).1
    i car hcar
  · intro car hstart
    have hpc : car.pc = .approach := by simpa [cars] using (of_decide_eq_true hstart).1
    simp [Car.todo, hpc]
  · intro _ _ m car es m' car' acts hstep hacts
    have hmoves := step_moves hstep
    rw [hmoves.route.1, ← hacts, hmoves.todo, List.append_assoc]

/-- Along every run, a semaphore counts what is left of the one unit. -/
theorem sem_ledger {tr : List (Event Act)} {t : State Shared Car} (hrun : Run cars.Step init tr t)
    (q : Quadrant) :
    (t.shared.sem q : ℤ) + total (fun car => due q (sems car.todo)) t.threads = 1 := by
  refine hrun.invariant (I := fun _ t => (t.shared.sem q : ℤ) +
    total (fun car => due q (sems car.todo)) t.threads = 1) rfl ?_
  intro tr t es u _ ih hstep
  cases hstep with
  | @thread m m' ls i car car' c es hcar hstep =>
    have hmoves := step_moves hstep
    dsimp only at ih ⊢
    rw [total_set _ hcar, hmoves.sem q, hmoves.todo, sems_append, due_append]
    omega
  | others hstep => cases hstep
  | @spawn m ls car hstart =>
    have hpc : car.pc = .approach := by simpa [cars] using (of_decide_eq_true hstart).1
    dsimp only at ih ⊢
    have hzero : due q (sems car.todo) = 0 := by
      have htodo : car.todo = car.way := by simp [Car.todo, hpc]
      rw [htodo, sems_way]
      exact due_route car.dir car.dest q
    rw [total_append, hzero]
    omega

theorem length_route (dir dest : Direction) : (handOverHand (route dir dest)).length < 7 := by
  revert dir dest
  decide

/-- `route_facts` for a car of a run. -/
theorem car_facts {acts : List Act} (h : acts ++ car.todo = car.way) :
    (∀ q, 0 ≤ due q (sems car.todo)) ∧
      (∀ q, .p q ∈ sems acts → .v q ∉ sems acts → 0 < due q (sems car.todo)) ∧
      ∀ q q', [q, q'] <:+: route car.dir car.dest → .v q ∈ sems acts → .p q' ∈ sems acts := by
  have hsplit : sems acts ++ sems car.todo = handOverHand (route car.dir car.dest) := by
    rw [← sems_append, h, sems_way]
  have hlt : (sems acts).length < 7 := by
    have hle := congrArg List.length hsplit
    rw [List.length_append] at hle
    have hroute := length_route car.dir car.dest
    omega
  have hfacts := route_facts car.dir car.dest ⟨(sems acts).length, hlt⟩
  rw [← hsplit] at hfacts
  simpa only [List.take_left, List.drop_left] using hfacts

/-- Cars enter the quadrants of their route in order. -/
theorem entered_way (car : Car) : entered car.way = route car.dir car.dest := by
  rw [entered, sems_way]
  obtain ⟨number, dir, dest, pc⟩ := car
  fin_cases dir <;> fin_cases dest <;> rfl

theorem left_way (car : Car) : left car.way = route car.dir car.dest := by
  rw [left, sems_way]
  obtain ⟨number, dir, dest, pc⟩ := car
  fin_cases dir <;> fin_cases dest <;> rfl

theorem mem_entered {acts : List Act} {q : Quadrant} : q ∈ entered acts ↔ .p q ∈ sems acts := by
  rw [entered, List.mem_filterMap]
  constructor
  · rintro ⟨op, hop, heq⟩
    cases op <;> cases heq
    exact hop
  · exact fun h => ⟨.p q, h, rfl⟩

theorem mem_left {acts : List Act} {q : Quadrant} : q ∈ left acts ↔ .v q ∈ sems acts := by
  rw [left, List.mem_filterMap]
  constructor
  · rintro ⟨op, hop, heq⟩
    cases op <;> cases heq
    exact hop
  · exact fun h => ⟨.v q, h, rfl⟩

/-- **The quadrants.** However many cars there are, from wherever to wherever, and in whatever order
they make their steps: at most one car is between the `P` and the `V` on the semaphore of a
quadrant; each car enters and leaves the quadrants of its route in order, and has entered and left
all of them at the end; and it does not leave a quadrant before it has entered the next one. -/
theorem cars_apart {tr : List (Event Act)} {t : State Shared Car} (hrun : Run cars.Step init tr t) :
    (∀ (q : Quadrant) (i j : ℕ), Inside (own i tr) q → Inside (own j tr) q → i = j) ∧
      ∀ (i : ℕ) car, t.threads[i]? = some car →
        entered (own i tr) <+: route car.dir car.dest ∧ left (own i tr) <+: route car.dir car.dest ∧
        (car.pc = .done → entered (own i tr) = route car.dir car.dest ∧
          left (own i tr) = route car.dir car.dest) ∧
        ∀ q q', [q, q'] <:+: route car.dir car.dest → q ∈ left (own i tr) →
          q' ∈ entered (own i tr) := by
  refine ⟨fun q i j hi hj => ?_, fun i car hcar => ?_⟩
  · have hthere : ∀ i : ℕ, Inside (own i tr) q → ∃ car, t.threads[i]? = some car := by
      intro i hi
      refine exists_thread hrun fun hnil => ?_
      rw [hnil] at hi
      exact absurd hi.1 List.not_mem_nil
    obtain ⟨car, hcar⟩ := hthere i hi
    obtain ⟨car', hcar'⟩ := hthere j hj
    have hshare : ∀ {i : ℕ} {car}, t.threads[i]? = some car → Inside (own i tr) q →
        0 < due q (sems car.todo) := by
      intro i car hcar hin
      exact (car_facts (history hrun hcar)).2.1 q (mem_entered.mp hin.1)
        fun hv => hin.2 (mem_left.mpr hv)
    have hledger := sem_ledger hrun q
    refine eq_of_total_le_one (w := fun car => due q (sems car.todo)) (fun car hmem => ?_)
      (by omega) hcar hcar' (hshare hcar hi) (hshare hcar' hj)
    obtain ⟨k, hk⟩ := List.getElem?_of_mem hmem
    exact (car_facts (history hrun hk)).1 q
  · have hway := history hrun hcar
    have hpre : own i tr <+: car.way := ⟨car.todo, hway⟩
    refine ⟨?_, ?_, fun hdone => ?_, ?_⟩
    · rw [← entered_way]
      exact (hpre.filterMap _).filterMap _
    · rw [← left_way]
      exact (hpre.filterMap _).filterMap _
    · have htodo : car.todo = [] := by simp [Car.todo, hdone]
      rw [htodo, List.append_nil] at hway
      rw [hway]
      exact ⟨entered_way car, left_way car⟩
    · intro q q' hnext hleft
      exact mem_entered.mpr ((car_facts hway).2.2 q q' hnext (mem_left.mp hleft))

/-- A car from the north that goes straight on is admitted and takes its first quadrant, while
another from the west is admitted. -/
def twoCars : List (Choice Car Unit) :=
  .spawn ⟨0, 0, 2, .approach⟩ :: .spawn ⟨1, 3, 1, .approach⟩ ::
    (List.replicate 10 (.thread 0 ()) ++ List.replicate 8 (.thread 1 ()))

theorem cars_apart_twoCars :
    Inside (own (some 0) (cars.after twoCars init).1) 0 ∧
      ∀ i : ℕ, Inside (own i (cars.after twoCars init).1) 0 → i = 0 := by
  have hrun : Run cars.Step init (cars.after twoCars init).1 (cars.after twoCars init).2 :=
    run_after (by decide +kernel)
  have hin : Inside (own (some 0) (cars.after twoCars init).1) 0 := by decide +kernel
  exact ⟨hin, fun i hi => (cars_apart hrun).1 0 i 0 hi hin⟩

end Os161.Stoplight
