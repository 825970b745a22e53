import Mathlib.Tactic

/-!
# Blocks laid out one after the other

A region of memory is cut into blocks without gaps: the first block starts at an address `a` and
each of the others where the one before it ends. `place len a bs` lists the blocks with their
addresses. A layout has boundary tags when every block says how long it is and how long the block
below it is; `Tagged len tag a p bs` states this for a predicate `tag h p b` of the address of a
block, the length of the block below and the block itself, where `p` is the length below the first
one.

Layouts are edited by cutting them in two (`place_append`, `tagged_append`), by changing the part
between, and by changing memory outside their blocks (`Tagged.congr`).
-/

namespace Tiling

variable {β : Type} (len : β → ℕ)

/-- The room that the blocks take. -/
def span (bs : List β) : ℕ := (bs.map len).sum

/-- The blocks and the addresses at which they start. -/
def place : ℕ → List β → List (ℕ × β)
  | _, [] => []
  | a, b :: bs => (a, b) :: place (a + len b) bs

/-- The length of the last block, or `p` if there is none. -/
def lastLen : ℕ → List β → ℕ
  | p, [] => p
  | _, b :: bs => lastLen (len b) bs

/-- Every block has its boundary tag. -/
def Tagged (tag : ℕ → ℕ → β → Prop) : ℕ → ℕ → List β → Prop
  | _, _, [] => True
  | a, p, b :: bs => tag a p b ∧ Tagged tag (a + len b) (len b) bs

variable {len} {a p : ℕ} {b : β} {bs cs : List β} {tag tag' : ℕ → ℕ → β → Prop}

@[simp]
theorem span_nil : span len [] = 0 := rfl

@[simp]
theorem span_cons : span len (b :: bs) = len b + span len bs := by
  simp only [span, List.map_cons, List.sum_cons]

@[simp]
theorem span_append : span len (bs ++ cs) = span len bs + span len cs := by
  simp only [span, List.map_append, List.sum_append]

@[simp]
theorem place_nil : place len a [] = [] := rfl

@[simp]
theorem place_cons : place len a (b :: bs) = (a, b) :: place len (a + len b) bs := rfl

theorem place_append :
    place len a (bs ++ cs) = place len a bs ++ place len (a + span len bs) cs := by
  induction bs generalizing a with
  | nil => rfl
  | cons b bs ih => simp only [List.cons_append, place_cons, ih, span_cons, Nat.add_assoc]

/-- A block that is placed at `h` cuts the layout in two. -/
theorem exists_of_mem_place {h : ℕ} (hmem : (h, b) ∈ place len a bs) :
    ∃ l r, bs = l ++ b :: r ∧ h = a + span len l := by
  induction bs generalizing a with
  | nil => cases hmem
  | cons c bs ih =>
    rcases List.mem_cons.mp hmem with heq | hmem
    · obtain ⟨rfl, rfl⟩ := Prod.mk.inj heq
      exact ⟨[], bs, rfl, rfl⟩
    · obtain ⟨l, r, rfl, rfl⟩ := ih hmem
      exact ⟨c :: l, r, rfl, by rw [span_cons, Nat.add_assoc]⟩

/-- Blocks lie within the layout. -/
theorem range_of_mem_place {h : ℕ} (hmem : (h, b) ∈ place len a bs) :
    a ≤ h ∧ h + len b ≤ a + span len bs := by
  obtain ⟨l, r, rfl, rfl⟩ := exists_of_mem_place hmem
  simp only [span_append, span_cons]
  omega

/-- Every block ends at or before the start of the ones after it. -/
theorem pairwise_place : (place len a bs).Pairwise fun x y => x.1 + len x.2 ≤ y.1 := by
  induction bs generalizing a with
  | nil => exact .nil
  | cons b bs ih => exact .cons (fun y hy => (range_of_mem_place hy).1) ih

@[simp]
theorem lastLen_nil : lastLen len p [] = p := rfl

@[simp]
theorem lastLen_cons : lastLen len p (b :: bs) = lastLen len (len b) bs := rfl

@[simp]
theorem lastLen_append_singleton : lastLen len p (bs ++ [b]) = len b := by
  induction bs generalizing p with
  | nil => rfl
  | cons c bs ih => rw [List.cons_append, lastLen_cons, ih]

theorem lastLen_le : lastLen len p bs ≤ p + span len bs := by
  induction bs generalizing p with
  | nil => exact le_rfl
  | cons b bs ih =>
    rw [lastLen_cons, span_cons]
    exact ih.trans (Nat.le_add_left _ _)

@[simp]
theorem tagged_nil : Tagged len tag a p [] := trivial

@[simp]
theorem tagged_cons :
    Tagged len tag a p (b :: bs) ↔ tag a p b ∧ Tagged len tag (a + len b) (len b) bs := Iff.rfl

theorem tagged_append : Tagged len tag a p (bs ++ cs) ↔
    Tagged len tag a p bs ∧ Tagged len tag (a + span len bs) (lastLen len p bs) cs := by
  induction bs generalizing a p with
  | nil => simp only [List.nil_append, tagged_nil, span_nil, Nat.add_zero, lastLen_nil, true_and]
  | cons b bs ih =>
    simp only [List.cons_append, tagged_cons, ih, span_cons, lastLen_cons, Nat.add_assoc, and_assoc]

/-- Tags that agree on the blocks of a layout. -/
theorem Tagged.congr (h : Tagged len tag a p bs)
    (htag : ∀ h q b, (h, b) ∈ place len a bs → tag h q b → tag' h q b) :
    Tagged len tag' a p bs := by
  induction bs generalizing a p with
  | nil => trivial
  | cons b bs ih =>
    refine ⟨htag a p b List.mem_cons_self h.1, ih h.2 fun h q c hmem => ?_⟩
    exact htag h q c (List.mem_cons_of_mem _ hmem)

end Tiling
