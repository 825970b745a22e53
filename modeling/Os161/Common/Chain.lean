import Mathlib.Tactic

/-!
# Singly linked chains

A linked structure is a function `next : α → Option α` from nodes to their successors and a head
pointer. `Linked next p l` says that following `next` from `p` visits exactly the nodes of `l`, in
order, and then ends. Chains are edited by pushing a node at the head (`Linked.push`), by dropping
the head (the second component of `linked_cons`) and by cutting a node out wherever it is
(`unlink`, the pointer-to-pointer loop of C), and they survive any change of `next` outside their
nodes (`Linked.congr`).
-/

namespace Chain

variable {α : Type} {next next' : α → Option α} {p : Option α} {l : List α} {x : α}

/-- Following `next` from the pointer `p` visits the nodes of `l` and ends. -/
def Linked (next : α → Option α) : Option α → List α → Prop
  | p, [] => p = none
  | p, x :: xs => p = some x ∧ Linked next (next x) xs

@[simp]
theorem linked_nil : Linked next p [] ↔ p = none := Iff.rfl

@[simp]
theorem linked_cons {xs : List α} :
    Linked next p (x :: xs) ↔ p = some x ∧ Linked next (next x) xs := Iff.rfl

/-- Only the successors of the nodes on the chain matter. -/
theorem Linked.congr (h : Linked next p l) (heq : ∀ x ∈ l, next' x = next x) :
    Linked next' p l := by
  induction l generalizing p with
  | nil => exact h
  | cons x xs ih =>
    obtain ⟨hp, hxs⟩ := h
    refine ⟨hp, ?_⟩
    rw [heq x List.mem_cons_self]
    exact ih hxs fun y hy => heq y (List.mem_cons_of_mem _ hy)

/-- The empty pointer starts the empty chain only. -/
theorem Linked.eq_nil (h : Linked next none l) : l = [] := by
  cases l with
  | nil => rfl
  | cons x xs => exact absurd h.1 (by simp)

/-- A node pointer starts a nonempty chain. -/
theorem Linked.exists_cons (h : Linked next (some x) l) : ∃ xs, l = x :: xs := by
  cases l with
  | nil => exact absurd h (by simp)
  | cons y ys =>
    obtain rfl : x = y := Option.some.inj h.1
    exact ⟨ys, rfl⟩

variable [DecidableEq α]

/-- Push a new node at the head. -/
theorem Linked.push (h : Linked next p l) (hx : x ∉ l) :
    Linked (Function.update next x p) (some x) (x :: l) := by
  refine ⟨rfl, ?_⟩
  rw [Function.update_self]
  refine h.congr fun y hy => Function.update_of_ne ?_ _ _
  rintro rfl
  exact hx hy

/-! ## Cutting a node out -/

/-- Starting at the node `q`, look for the node that points to `x` and make it skip `x`. -/
def unlinkAfter (next : α → Option α) (x : α) : (fuel : ℕ) → α → α → Option α
  | 0, _ => next
  | n + 1, q =>
    match next q with
    | none => next
    | some y =>
      if y = x then Function.update next q (next x) else unlinkAfter next x n y

/-- Cut the node `x` out of the chain that starts at `base`: the new head and the new successors. -/
def unlink (next : α → Option α) (x : α) (fuel : ℕ) (base : Option α) :
    Option α × (α → Option α) :=
  match base with
  | none => (none, next)
  | some q => if q = x then (next x, next) else (some q, unlinkAfter next x fuel q)

/-- `unlinkAfter` cuts `x` out of the rest of a chain. -/
theorem Linked.unlinkAfter {q : α} {xs : List α} {fuel : ℕ} (h : Linked next (next q) xs)
    (hnd : (q :: xs).Nodup) (hx : x ∈ xs) (hfuel : xs.length ≤ fuel) :
    Linked (Chain.unlinkAfter next x fuel q) (Chain.unlinkAfter next x fuel q q) (xs.erase x) ∧
      ∀ y, y ∉ q :: xs → Chain.unlinkAfter next x fuel q y = next y := by
  induction fuel generalizing q xs with
  | zero =>
    obtain rfl : xs = [] := List.length_eq_zero_iff.mp (by omega)
    exact absurd hx List.not_mem_nil
  | succ n ih =>
    cases xs with
    | nil => exact absurd hx List.not_mem_nil
    | cons y ys =>
      obtain ⟨hq, hys⟩ := h
      obtain ⟨hqn, hnd'⟩ := List.nodup_cons.mp hnd
      obtain ⟨hyn, -⟩ := List.nodup_cons.mp hnd'
      rw [Chain.unlinkAfter, hq]
      by_cases hyx : y = x
      · subst hyx
        simp only [if_true, List.erase_cons_head, Function.update_self]
        refine ⟨hys.congr fun z hz => Function.update_of_ne ?_ _ _, fun z hz => ?_⟩
        · rintro rfl
          exact hqn (List.mem_cons_of_mem _ hz)
        · refine Function.update_of_ne ?_ _ _
          rintro rfl
          exact hz List.mem_cons_self
      · have hx' : x ∈ ys := (List.mem_cons.mp hx).resolve_left (Ne.symm hyx)
        obtain ⟨hrec, hframe⟩ := ih hys hnd' hx' (by simp only [List.length_cons] at hfuel; omega)
        simp only [if_neg hyx]
        rw [List.erase_cons_tail (by simpa using hyx)]
        refine ⟨⟨?_, hrec⟩, fun z hz => hframe z fun h => hz (List.mem_cons_of_mem _ h)⟩
        rw [hframe q hqn]
        exact hq

/-- Cutting a node out of a chain without repetitions leaves the chain of the other nodes. -/
theorem Linked.unlink {fuel : ℕ} (h : Linked next p l) (hnd : l.Nodup) (hx : x ∈ l)
    (hfuel : l.length ≤ fuel) :
    Linked (Chain.unlink next x fuel p).2 (Chain.unlink next x fuel p).1 (l.erase x) ∧
      ∀ y, y ∉ l → (Chain.unlink next x fuel p).2 y = next y := by
  cases l with
  | nil => exact absurd hx List.not_mem_nil
  | cons q xs =>
    obtain ⟨rfl, hxs⟩ := h
    rw [Chain.unlink]
    by_cases hqx : q = x
    · subst hqx
      simp only [if_true, List.erase_cons_head]
      exact ⟨hxs, fun _ _ => trivial⟩
    · have hx' : x ∈ xs := (List.mem_cons.mp hx).resolve_left (Ne.symm hqx)
      have hlen : xs.length ≤ fuel := by
        simp only [List.length_cons] at hfuel
        omega
      obtain ⟨hrec, hframe⟩ := hxs.unlinkAfter hnd hx' hlen
      simp only [if_neg hqx]
      rw [List.erase_cons_tail (by simpa using hqx)]
      exact ⟨⟨rfl, hrec⟩, hframe⟩

end Chain
