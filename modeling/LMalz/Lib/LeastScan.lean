import Mathlib.Order.Bounds.Basic
import Mathlib.Data.List.Perm.Basic

/- The least of a list, found by a scan that stops at the bottom. -/
namespace LeastScan

variable {α β : Type*} [LinearOrder β] [DecidableEq α] {rank : α → β} {bot : α} {xs ys : List α}

/-- The least by `rank` of `acc` and the list; nothing is read behind `bot`. -/
def scan (rank : α → β) (bot : α) : List α → α → α
  | [], acc => acc
  | x :: xs, acc =>
      if x = bot then bot else scan rank bot xs (if rank x < rank acc then x else acc)

theorem scan_mem (acc : α) : scan rank bot xs acc = acc ∨ scan rank bot xs acc ∈ xs := by
  induction xs generalizing acc with
  | nil => exact .inl rfl
  | cons x xs ih =>
      rw [scan]
      split_ifs with stop less
      · exact .inr (stop ▸ List.mem_cons_self)
      · rcases ih x with first | later
        · rw [first]
          exact .inr List.mem_cons_self
        · exact .inr (List.mem_cons_of_mem x later)
      · exact (ih acc).imp_right (List.mem_cons_of_mem x)

theorem scan_le (least : ∀ x, rank bot ≤ rank x) (acc : α) :
    rank (scan rank bot xs acc) ≤ rank acc ∧ ∀ x ∈ xs, rank (scan rank bot xs acc) ≤ rank x := by
  induction xs generalizing acc with
  | nil => exact ⟨le_rfl, fun _ h => absurd h List.not_mem_nil⟩
  | cons x xs ih =>
      rw [scan]
      split_ifs with stop less
      · exact ⟨least acc, fun y _ => least y⟩
      · obtain ⟨first, rest⟩ := ih x
        exact ⟨first.trans less.le, List.forall_mem_cons.mpr ⟨first, rest⟩⟩
      · obtain ⟨first, rest⟩ := ih acc
        exact ⟨first, List.forall_mem_cons.mpr ⟨first.trans (not_lt.mp less), rest⟩⟩

/-- From a start above every element, the scan of a nonempty list finds its least element. -/
theorem scan_isLeast {acc : α} (least : ∀ x, rank bot ≤ rank x) (above : ∀ x ∈ xs, rank x < rank acc)
    (nonempty : xs ≠ []) :
    scan rank bot xs acc ∈ xs ∧
      IsLeast {b | ∃ x ∈ xs, b = rank x} (rank (scan rank bot xs acc)) := by
  obtain ⟨first, rest⟩ : _ ∧ ∀ x ∈ xs, _ := scan_le least acc
  have mem : scan rank bot xs acc ∈ xs := by
    refine (scan_mem acc).resolve_left fun same => ?_
    obtain ⟨x, hx⟩ := List.exists_mem_of_ne_nil xs nonempty
    have le := rest x hx
    rw [same] at le
    exact absurd (above x hx) (not_lt.mpr le)
  refine ⟨mem, ⟨_, mem, rfl⟩, ?_⟩
  rintro b ⟨x, hx, rfl⟩
  exact rest x hx

theorem scan_ne {acc : α} (least : ∀ x, rank bot ≤ rank x) (above : ∀ x ∈ xs, rank x < rank acc)
    (nonempty : xs ≠ []) : scan rank bot xs acc ≠ acc := by
  intro same
  have less := above _ (scan_isLeast least above nonempty).1
  rw [same] at less
  exact absurd less (lt_irrefl _)

/-- What the scan finds depends on the elements and not on their order. -/
theorem scan_perm {acc : α} (injective : Function.Injective rank) (least : ∀ x, rank bot ≤ rank x)
    (perm : xs.Perm ys) : scan rank bot xs acc = scan rank bot ys acc := by
  have half : ∀ {us vs : List α}, us.Perm vs →
      rank (scan rank bot us acc) ≤ rank (scan rank bot vs acc) := by
    intro us vs same
    obtain ⟨first, rest⟩ : _ ∧ ∀ x ∈ us, _ := scan_le least acc
    rcases (scan_mem acc : scan rank bot vs acc = acc ∨ _) with start | found
    · rw [start]
      exact first
    · exact rest _ (same.mem_iff.mpr found)
  exact injective (le_antisymm (half perm) (half perm.symm))

end LeastScan
