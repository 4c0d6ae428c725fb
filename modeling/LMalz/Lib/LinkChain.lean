import Mathlib.Logic.Function.Basic
import Mathlib.Data.List.Nodup

/- Singly linked chains over an array of optional successors. -/
namespace LinkChain
open Function (update)

variable {α : Type*}

/-- Following `next` from an optional start visits exactly the listed cells and
then stops. -/
inductive Chain (next : α → Option α) : Option α → List α → Prop
  | nil : Chain next none []
  | cons {a : α} {l : List α} : Chain next (next a) l → Chain next (some a) (a :: l)

namespace Chain

variable {next next' : α → Option α} {s : Option α} {a b e n p : α} {l m pre post : List α}

theorem eq_none (h : Chain next s []) : s = none := by
  cases h
  rfl

theorem eq_head (h : Chain next s (a :: l)) : s = some a := by
  cases h
  rfl

theorem tail (h : Chain next s (a :: l)) : Chain next (next a) l := by
  cases h with
  | cons h => exact h

theorem unique (h : Chain next s l) (k : Chain next s m) : l = m := by
  induction h generalizing m with
  | nil =>
      cases k
      rfl
  | cons _ ih =>
      cases k with
      | cons k => rw [ih k]

theorem frame (h : Chain next s l) (agree : ∀ a ∈ l, next' a = next a) : Chain next' s l := by
  induction h with
  | nil => exact .nil
  | cons _ ih =>
      refine .cons ?_
      rw [agree _ List.mem_cons_self]
      exact ih (fun b hb => agree b (List.mem_cons_of_mem _ hb))

theorem append_split (h : Chain next s (pre ++ post)) : ∃ t, Chain next t post := by
  induction pre generalizing s with
  | nil => exact ⟨s, h⟩
  | cons a pre ih => exact ih h.tail

theorem link_between (h : Chain next s (pre ++ p :: n :: post)) : next p = some n := by
  obtain ⟨t, ht⟩ := h.append_split
  exact ht.tail.eq_head

theorem link_last (h : Chain next s (pre ++ [e])) : next e = none := by
  obtain ⟨t, ht⟩ := h.append_split
  exact ht.tail.eq_none

/-- Only the last cell of a chain stops. -/
theorem link_inner (h : Chain next s (pre ++ [e])) (ha : a ∈ pre) : next a ≠ none := by
  obtain ⟨front, back, rfl⟩ := List.append_of_mem ha
  cases back with
  | nil =>
      have split : Chain next s (front ++ a :: e :: []) := by simpa using h
      simp [split.link_between]
  | cons c back =>
      have split : Chain next s (front ++ a :: c :: (back ++ [e])) := by simpa using h
      simp [split.link_between]

theorem eq_nil (h : Chain next none l) : l = [] := by
  cases h
  rfl

theorem start_mem (h : Chain next (some a) l) : a ∈ l := by
  cases h
  exact List.mem_cons_self

theorem next_mem (h : Chain next s l) (ha : a ∈ l) (hb : next a = some b) : b ∈ l := by
  obtain ⟨front, back, rfl⟩ := List.append_of_mem ha
  obtain ⟨t, ht⟩ := h.append_split
  have rest := ht.tail
  rw [hb] at rest
  exact List.mem_append_right front (List.mem_cons_of_mem a rest.start_mem)

theorem last_of_stop (h : Chain next s l) (ha : a ∈ l) (stop : next a = none) :
    ∃ pre, l = pre ++ [a] := by
  obtain ⟨front, back, rfl⟩ := List.append_of_mem ha
  obtain ⟨t, ht⟩ := h.append_split
  have rest := ht.tail
  rw [stop] at rest
  rw [rest.eq_nil]
  exact ⟨front, rfl⟩

variable [DecidableEq α]

theorem update_fresh (h : Chain next s l) (v : Option α) (fresh : n ∉ l) :
    Chain (update next n v) s l :=
  h.frame fun _ ha => Function.update_of_ne (ne_of_mem_of_not_mem ha fresh) v next

theorem push_front (h : Chain next s l) (fresh : n ∉ l) :
    Chain (update next n s) (some n) (n :: l) := by
  refine .cons ?_
  rw [Function.update_self]
  exact h.update_fresh s fresh

/-- Insertion behind the last cell; the new cell must itself be a stop. -/
theorem push_back (h : Chain next s (pre ++ [e])) (nodup : (pre ++ [e]).Nodup)
    (fresh : n ∉ pre ++ [e]) (stop : next n = none) :
    Chain (update next e (some n)) s (pre ++ [e, n]) := by
  induction pre generalizing s with
  | nil =>
      have hs := h.eq_head
      subst hs
      have hne : n ≠ e := fun same => fresh (by simp [same])
      refine .cons ?_
      rw [Function.update_self]
      refine .cons ?_
      rw [Function.update_of_ne hne, stop]
      exact .nil
  | cons a pre ih =>
      have hs := h.eq_head
      subst hs
      have hne : a ≠ e := by
        intro same
        simp [same] at nodup
      refine .cons ?_
      rw [Function.update_of_ne hne]
      exact ih h.tail (List.nodup_cons.mp nodup).2 (fun hn => fresh (List.mem_cons_of_mem a hn))

/-- Removal of a cell that has a predecessor on the chain. -/
theorem unlink (h : Chain next s (pre ++ p :: n :: post)) (nodup : (pre ++ p :: n :: post).Nodup) :
    Chain (update next p (next n)) s (pre ++ p :: post) := by
  induction pre generalizing s with
  | nil =>
      have hs := h.eq_head
      subst hs
      have tail : Chain next (next n) post := h.tail.tail
      have hp : p ∉ post := fun hp => by simp [hp] at nodup
      refine .cons ?_
      rw [Function.update_self]
      exact tail.update_fresh _ hp
  | cons a pre ih =>
      have hs := h.eq_head
      subst hs
      have hne : a ≠ p := by
        intro same
        simp [same] at nodup
      refine .cons ?_
      rw [Function.update_of_ne hne]
      exact ih h.tail (List.nodup_cons.mp nodup).2

omit [DecidableEq α] in
/-- A nonempty chain has a cell without a successor. -/
theorem exists_stop (h : Chain next s l) (nonempty : l ≠ []) : ∃ a ∈ l, next a = none := by
  rcases List.eq_nil_or_concat l with rfl | ⟨pre, e, rfl⟩
  · exact absurd rfl nonempty
  · rw [List.concat_eq_append] at h
    exact ⟨e, by simp, h.link_last⟩

end Chain
end LinkChain
