import LMalz.Ept.EptCls

/- Every recursive call of the setters has taken a page, so the pool bounds their depth, whatever
the tables hold. -/
namespace LMalz.Ept

/-- The counters of the pool as ALhvMMallocateMemory keeps them. -/
structure Machine.PoolSound (s : Machine) : Prop where
  low : 0 ≤ s.limits.poolUsable
  high : s.limits.poolUsable ≤ Pool.poolSize
  upper : s.limits.poolBigMemEnd ≤ Pool.poolSize

/-- How many pages the pool has left. -/
def Machine.pagesLeft (s : Machine) : Nat := ((Pool.poolSize - s.limits.poolUsable) / 0x1000).toNat

/-- `x`, run from `s`, does not run out of fuel and takes `n` pages at least. -/
structure Ends {α : Type} (x : Outcome (α × Machine)) (s : Machine) (n : Nat) : Prop where
  stops : x ≠ .outOfFuel
  after : ∀ a s', x = .ok (a, s') → s'.PoolSound ∧ s'.pagesLeft + n ≤ s.pagesLeft

section Ends
variable {α β : Type} {s t : Machine} {n m : Nat}

theorem Machine.PoolSound.congr (h : s.PoolSound) (same : t.limits = s.limits) : t.PoolSound :=
  ⟨same ▸ h.low, same ▸ h.high, same ▸ h.upper⟩

theorem pagesLeft_le (h : s.PoolSound) : s.pagesLeft ≤ poolPages := by
  have low := h.low
  have size : Pool.poolSize = 0x1000 * poolPages := rfl
  rw [Machine.pagesLeft]
  omega

theorem Ends.ok (a : α) (sound : t.PoolSound) (left : t.pagesLeft + n ≤ s.pagesLeft) :
    Ends (.ok (a, t)) s n := by
  refine ⟨by simp, fun b s' same => ?_⟩
  cases same
  exact ⟨sound, left⟩

theorem Ends.killed : Ends (.killed : Outcome (α × Machine)) s n :=
  ⟨by simp, fun _ _ same => by cases same⟩

theorem Ends.bind {x : Outcome (α × Machine)} {f : α × Machine → Outcome (β × Machine)}
    (h : Ends x s n)
    (next : ∀ a s', s'.PoolSound → s'.pagesLeft + n ≤ s.pagesLeft → Ends (f (a, s')) s m) :
    Ends (x >>= f) s m := by
  cases run : x with
  | outOfFuel => exact absurd run h.stops
  | killed => exact .killed
  | ok r =>
      obtain ⟨a, s'⟩ := r
      obtain ⟨sound, left⟩ := h.after a s' run
      exact next a s' sound left

/-- What was run from a later machine also ends from an earlier one. -/
theorem Ends.from {x : Outcome (α × Machine)} (h : Ends x t n) (left : t.pagesLeft + m ≤ s.pagesLeft) :
    Ends x s (n + m) :=
  ⟨h.stops, fun a s' run => ⟨(h.after a s' run).1, by have := (h.after a s' run).2; omega⟩⟩

end Ends

section Setters
variable (P : Platform) {s : Machine}

theorem allocatePage_ends (sound : s.PoolSound) : Ends (allocatePage P s) s 1 := by
  have low := sound.low
  have high := sound.high
  have upper := sound.upper
  have size : Pool.poolSize = 0xA00000 := rfl
  rw [allocatePage, Pool.alHvMmAllocateMemory_page low (by omega)]
  by_cases room : s.limits.poolUsable + 0x1000 ≤ s.limits.poolBigMemEnd
  · rw [if_pos room]
    refine .ok _ ⟨?_, ?_, upper⟩ ?_
    · change 0 ≤ s.limits.poolUsable + 0x1000
      omega
    · change s.limits.poolUsable + 0x1000 ≤ Pool.poolSize
      omega
    · change ((Pool.poolSize - (s.limits.poolUsable + 0x1000)) / 0x1000).toNat + 1 ≤
        ((Pool.poolSize - s.limits.poolUsable) / 0x1000).toNat
      omega
  · rw [if_neg room]
    exact .killed

theorem alVmxEptBuildPde_ends (gpa : BitVec 64) (pteDemo : Entry) (sound : s.PoolSound) :
    Ends (alVmxEptBuildPde P gpa pteDemo s) s 1 := by
  rw [alVmxEptBuildPde]
  refine (allocatePage_ends P sound).bind fun page s' sound' left => ?_
  dsimp only
  split
  · exact .ok _ sound' left
  · exact .ok _ (sound'.congr rfl) left

theorem alVmxEptSetPde_ends (gpa : BitVec 64) (pde : Entry) (ept : Frame) (fuel : Nat)
    (sound : s.PoolSound) (enough : s.pagesLeft < fuel) :
    Ends (alVmxEptSetPde P fuel gpa pde ept s) s 0 := by
  induction fuel generalizing s with
  | zero => omega
  | succ fuel ih =>
      have again : ∀ f a, Ends (allocatePage P s >>= fun (r : Frame × Machine) =>
          if r.1 = 0 then pure (false, r.2)
          else alVmxEptSetPde P fuel gpa pde ept (r.2.store f a (tableEntry r.1))) s 0 := by
        intro f a
        refine (allocatePage_ends P sound).bind fun page s' sound' left => ?_
        dsimp only
        split
        · exact .ok _ sound' (by omega)
        · have next := ih (s := s'.store f a (tableEntry page)) (sound'.congr rfl)
            (show s'.pagesLeft < fuel by omega)
          exact next.from (show s'.pagesLeft + 0 ≤ s.pagesLeft by omega)
      simp only [alVmxEptSetPde]
      split
      · exact .ok _ sound (Nat.le_refl _)
      split
      · split
        · exact .ok _ (sound.congr rfl) (Nat.le_refl _)
        · exact again _ _
      · exact again _ _

theorem alVmxEptSetPte_ends (gpa : BitVec 64) (pte : Entry) (ept : Frame) (fuel : Nat)
    (sound : s.PoolSound) (enough : s.pagesLeft < fuel) :
    Ends (alVmxEptSetPte P fuel gpa pte ept s) s 0 := by
  induction fuel generalizing s with
  | zero => omega
  | succ fuel ih =>
      have again : ∀ demo (stored : Machine → Bool × Machine),
          (∀ t, (stored t).2.limits = t.limits) →
          Ends (alVmxEptBuildPde P gpa demo s >>= fun (r : Entry × Machine) =>
            if r.1 ≠ 0 then
              alVmxEptSetPde P fuel gpa r.1 ept r.2 >>= fun (q : Bool × Machine) =>
                alVmxEptSetPte P fuel gpa pte ept q.2
            else pure (stored r.2)) s 0 := by
        intro demo stored kept
        refine (alVmxEptBuildPde_ends P gpa demo sound).bind fun newPde s' sound' left => ?_
        dsimp only
        split
        · refine ((alVmxEptSetPde_ends P gpa newPde ept fuel sound' (by omega)).from left).bind
            fun done t sound'' left' => ?_
          exact (ih sound'' (by omega)).from (show t.pagesLeft + 0 ≤ s.pagesLeft by omega)
        · have limits := kept s'
          refine .ok _ (sound'.congr limits) ?_
          rw [Machine.pagesLeft, limits, ← Machine.pagesLeft]
          omega
      simp only [alVmxEptSetPte]
      split
      · split
        · exact again _ _ fun _ => rfl
        · exact .ok _ (sound.congr rfl) (Nat.le_refl _)
      · exact again _ (fun t => (false, t)) fun _ => rfl

theorem clonePageTable_ends (gpa : BitVec 64) (layer : Nat) (ept : Frame) (low : 1 ≤ layer)
    (high : layer ≤ 3) (sound : s.PoolSound) : Ends (clonePageTable P gpa layer ept s) s 1 := by
  rw [clonePageTable, if_neg (by omega)]
  refine (allocatePage_ends P sound).bind fun page s' sound' left => ?_
  dsimp only
  split
  · exact .ok _ sound' left
  · split
    · exact .ok _ sound' left
    · exact .ok _ (sound'.congr rfl) left

theorem needRemapOf_le (m : Memory) (this target : Frame) (gpa : BitVec 64) :
    (needRemapOf m this target gpa).1 ≤ 3 := by
  unfold needRemapOf
  dsimp only
  split_ifs <;> simp

theorem needRemapLoop_le (m : Memory) (this : Frame) (gpa : BitVec 64) (sources : List Frame) :
    (needRemapLoop m this gpa sources).1 ≤ 3 := by
  induction sources with
  | nil => exact Nat.zero_le 3
  | cons target rest ih =>
      simp only [needRemapLoop]
      split
      · exact needRemapOf_le m this target gpa
      · exact ih

theorem limits_setPageTableInfo (gpa : BitVec 64) (layer : Nat) (v : Entry) (ept : Frame) :
    (alVmxEptSetPageTableInfo gpa layer v ept s).2.limits = s.limits := by
  unfold alVmxEptSetPageTableInfo
  split <;> rfl

/-- One recursion more than pages are left is enough for set_pte on any tables. -/
theorem setPte_ends (this : EptCls) (gpa : BitVec 64) (pte : Entry) (fuel : Nat)
    (sound : s.PoolSound) (enough : s.pagesLeft + 1 < fuel) :
    Ends (setPte P fuel this gpa pte s) s 0 := by
  induction fuel generalizing s with
  | zero => omega
  | succ fuel ih =>
      simp only [setPte]
      split
      · exact alVmxEptSetPte_ends P gpa pte this.eptPml4 fuel sound (by omega)
      · next remap =>
          have layer : (needRemap s this gpa).1 ≤ 3 := needRemapLoop_le _ _ _ _
          refine (clonePageTable_ends P gpa _ this.eptPml4 (Nat.pos_of_ne_zero remap) layer
            sound).bind fun te s' sound' left => ?_
          dsimp only
          generalize stored : alVmxEptSetPageTableInfo gpa _ _ _ _ = r
          have limits : r.2.limits = s'.limits := stored ▸ limits_setPageTableInfo _ _ _ _
          have left' : r.2.pagesLeft = s'.pagesLeft := by
            rw [Machine.pagesLeft, limits, ← Machine.pagesLeft]
          exact (ih (sound'.congr limits) (by omega)).from
            (show r.2.pagesLeft + 0 ≤ s.pagesLeft by omega)

theorem setPteAccess_ends (this : EptCls) (gpa : BitVec 64) (a : Access) (fuel : Nat)
    (sound : s.PoolSound) (enough : s.pagesLeft + 1 < fuel) :
    Ends (setPteAccess P fuel this gpa a s) s 0 := by
  simp only [setPteAccess]
  split
  · exact (setPte_ends P (s := s.latch) this gpa _ fuel (sound.congr rfl) enough).from
      (show s.latch.pagesLeft + 0 ≤ s.pagesLeft from Nat.le_refl _)
  · exact setPte_ends P this gpa _ fuel sound enough

end Setters
end LMalz.Ept
