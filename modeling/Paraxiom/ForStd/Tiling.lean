import Mathlib

/-!
# Ranges laid end to end

`Tiles a rs b` says that the half-open ranges `rs` are non-empty and lie end to end from
`a` to `b`. Such ranges are disjoint and cover exactly `a ≤ i < b`.
-/

/-- The ranges lie end to end from `a` to `b`. -/
inductive Tiles : Nat → List (Nat × Nat) → Nat → Prop where
  | nil (a : Nat) : Tiles a [] a
  | cons {a m b : Nat} {rs : List (Nat × Nat)} (hlt : a < m) (rest : Tiles m rs b) :
      Tiles a ((a, m) :: rs) b

namespace Tiles

variable {a b c : Nat} {rs : List (Nat × Nat)}

theorem le (h : Tiles a rs b) : a ≤ b := by
  induction h with
  | nil => exact Nat.le_refl _
  | cons hlt _ ih => omega

/-- One more range at the end. -/
theorem concat (h : Tiles a rs b) (hlt : b < c) : Tiles a (rs ++ [(b, c)]) c := by
  induction h with
  | nil => exact .cons hlt (.nil c)
  | cons hlt' _ ih => exact .cons hlt' (ih hlt)

theorem start_le_of_mem (h : Tiles a rs b) : ∀ r ∈ rs, a ≤ r.1 := by
  induction h with
  | nil => exact nofun
  | cons hlt _ ih =>
    intro r hr
    rcases List.mem_cons.mp hr with rfl | hr
    · exact Nat.le_refl _
    · have := ih r hr; omega

/-- An earlier range ends before a later one starts. -/
theorem pairwise (h : Tiles a rs b) : rs.Pairwise fun r r' => r.2 ≤ r'.1 := by
  induction h with
  | nil => exact .nil
  | cons _ rest ih => exact .cons (rest.start_le_of_mem ·) ih

/-- Each range ends where the next one starts. -/
theorem isChain (h : Tiles a rs b) : rs.IsChain fun r r' => r.2 = r'.1 := by
  induction h with
  | nil => exact .nil
  | cons _ rest ih =>
    cases rest with
    | nil => exact .singleton _
    | cons => exact .cons_cons rfl ih

/-- The ranges cover exactly what lies between the two ends. -/
theorem mem_iff (h : Tiles a rs b) (i : Nat) :
    (∃ r ∈ rs, r.1 ≤ i ∧ i < r.2) ↔ a ≤ i ∧ i < b := by
  induction h with
  | nil =>
    constructor
    · exact fun ⟨_, hr, _⟩ => nomatch hr
    · omega
  | @cons a m b rs hlt rest ih =>
    have hle := rest.le
    constructor
    · rintro ⟨r, hr, hlo, hhi⟩
      rcases List.mem_cons.mp hr with rfl | hr
      · simp only at hlo hhi
        omega
      · have := ih.mp ⟨r, hr, hlo, hhi⟩
        omega
    · rintro ⟨hlo, hhi⟩
      by_cases him : i < m
      · exact ⟨_, List.mem_cons_self, hlo, him⟩
      · obtain ⟨r, hr, hin⟩ := ih.mpr ⟨by omega, hhi⟩
        exact ⟨r, List.mem_cons_of_mem _ hr, hin⟩

end Tiles
