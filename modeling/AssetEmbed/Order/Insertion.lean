/-
  AssetEmbed.Order.Insertion — stable sorting by insertion.

  `sortBy le` puts a list in order and keeps the order of elements that `le`
  does not tell apart.  It recurses on the list alone, so that it can be
  evaluated inside a proof.

  Main results:
    * `sortBy_perm`     — nothing is lost, added or changed.
    * `pairwise_sortBy` — the outcome is in order, for a total transitive `le`.
-/

namespace AssetEmbed.Order

variable {α : Type}

/-- Puts `x` before the first element that it may precede. -/
def insertBy (le : α → α → Bool) (x : α) : List α → List α
  | [] => [x]
  | y :: ys => if le x y then x :: y :: ys else y :: insertBy le x ys

/-- Stable insertion sort. -/
def sortBy (le : α → α → Bool) : List α → List α
  | [] => []
  | x :: xs => insertBy le x (sortBy le xs)

theorem insertBy_perm (le : α → α → Bool) (x : α) (xs : List α) :
    (insertBy le x xs).Perm (x :: xs) := by
  induction xs with
  | nil => exact .refl _
  | cons y ys ih =>
    simp only [insertBy]
    split
    · exact .refl _
    · exact (ih.cons y).trans (.swap x y ys)

theorem sortBy_perm (le : α → α → Bool) (xs : List α) : (sortBy le xs).Perm xs := by
  induction xs with
  | nil => exact .refl _
  | cons x xs ih => exact (insertBy_perm le x _).trans (ih.cons x)

theorem mem_sortBy {le : α → α → Bool} {xs : List α} {a : α} :
    a ∈ sortBy le xs ↔ a ∈ xs :=
  (sortBy_perm le xs).mem_iff

theorem pairwise_insertBy {le : α → α → Bool}
    (total : ∀ a b, le a b = true ∨ le b a = true)
    (trans : ∀ a b c, le a b = true → le b c = true → le a c = true)
    (x : α) {xs : List α} (h : xs.Pairwise (fun a b => le a b = true)) :
    (insertBy le x xs).Pairwise (fun a b => le a b = true) := by
  induction xs with
  | nil => simp [insertBy]
  | cons y ys ih =>
    obtain ⟨hy, hys⟩ := List.pairwise_cons.1 h
    simp only [insertBy]
    split
    · next hxy =>
      refine List.pairwise_cons.2 ⟨?_, h⟩
      intro z hz
      rcases List.mem_cons.1 hz with rfl | hz
      · exact hxy
      · exact trans x y z hxy (hy z hz)
    · next hxy =>
      refine List.pairwise_cons.2 ⟨?_, ih hys⟩
      intro z hz
      rcases List.mem_cons.1 ((insertBy_perm le x ys).mem_iff.1 hz) with rfl | hz
      · exact (total z y).resolve_left hxy
      · exact hy z hz

theorem pairwise_sortBy {le : α → α → Bool}
    (total : ∀ a b, le a b = true ∨ le b a = true)
    (trans : ∀ a b c, le a b = true → le b c = true → le a c = true)
    (xs : List α) : (sortBy le xs).Pairwise (fun a b => le a b = true) := by
  induction xs with
  | nil => simp [sortBy]
  | cons x xs ih => exact pairwise_insertBy total trans x ih

end AssetEmbed.Order
