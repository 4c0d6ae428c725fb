import LMalz.Pool.Allocator

/- Safety of the pool over all interleavings of the two halves of a request. -/
namespace LMalz.Pool
open Function (update)
open Transition

/-- The bytes of a block of the requested size. -/
def Block.Holds (b : Block) (i : Int) : Prop := b.offset ≤ i ∧ i < b.offset + b.size

def Block.Apart (b d : Block) : Prop :=
  b.offset + b.size ≤ d.offset ∨ d.offset + d.size ≤ b.offset

/-- What the blocks of the completed calls must satisfy. -/
structure Safe {Core : Type} (s : System Core) : Prop where
  disjoint : s.blocks.Pairwise Block.Apart
  inside : ∀ b ∈ s.blocks, 0 ≤ b.offset ∧ b.offset + b.size ≤ poolSize
  aligned : ∀ b ∈ s.blocks, 0x1000 ≤ b.size → 0x1000 ∣ b.offset

/-- A block is all zero at the step that returns it. -/
def ReturnsZero {Core : Type} [DecidableEq Core] (s : System Core) : Prop :=
  ∀ c t b, Step s (.finish c) t → t.blocks = b :: s.blocks → ∀ i, b.Holds i → t.mem i = 0

/-- The interlocked add of a request stays in the range of INT64. -/
def FitsInt64 {Core : Type} (s : System Core) : Event Core → Prop
  | .begin _ sizeByByte =>
      if 0x1000 ≤ sizeByByte then
        s.limits.poolUsable + (sizeByByte + 0xfff) / 0x1000 * 0x1000 < 2^63
      else -2^63 ≤ s.limits.poolBigMemEnd - sizeByByte
  | _ => True

/-- The extent a request reserves: from the bottom for pages, from the top otherwise. -/
def Request.low (r : Request) : Int :=
  if 0x1000 ≤ r.sizeByByte then r.oldOff else r.oldOff + r.added

def Request.high (r : Request) : Int :=
  if 0x1000 ≤ r.sizeByByte then r.oldOff + r.added else r.oldOff

def Request.block (r : Request) : Block := ⟨r.low, r.sizeByByte⟩

/-- Extents taken from the same counter do not meet. -/
def Request.Apart (r q : Request) : Prop :=
  (0x1000 ≤ r.sizeByByte ↔ 0x1000 ≤ q.sizeByByte) → r.high ≤ q.low ∨ q.high ≤ r.low

/-- Facts about a request since its interlocked add, with the counters at any later time. -/
structure Request.Taken (r : Request) (lim : Limits) : Prop where
  covers : r.low + r.sizeByByte ≤ r.high
  positive : 0 < r.sizeByByte
  page : 0x1000 ≤ r.sizeByByte → 0 ≤ r.low ∧ r.high ≤ lim.poolUsable ∧ 0x1000 ∣ r.low
  small : r.sizeByByte < 0x1000 → lim.poolBigMemEnd ≤ r.low ∧ r.high ≤ poolSize

/-- The invariant. `done` are the completed requests behind `blocks`; a page block ends
below both the top counter of its check and every small block returned before or after. -/
structure Inv {Core : Type} (s : System Core) (done : List Request) : Prop where
  blocks : s.blocks = done.map Request.block
  usable : 0 ≤ s.limits.poolUsable ∧ s.limits.poolUsable < 2^63 ∧ 0x1000 ∣ s.limits.poolUsable
  bigMemEnd : -2^63 ≤ s.limits.poolBigMemEnd ∧ s.limits.poolBigMemEnd ≤ poolSize
  pending : ∀ c r, s.pending c = some r → r.Taken s.limits
  taken : ∀ r ∈ done, r.Taken s.limits
  pendingApart : ∀ c d r q, c ≠ d → s.pending c = some r → s.pending d = some q → r.Apart q
  pendingDone : ∀ c r, s.pending c = some r → ∀ q ∈ done, r.Apart q
  doneApart : done.Pairwise Request.Apart
  pageInside : ∀ r ∈ done, 0x1000 ≤ r.sizeByByte → r.high ≤ poolSize
  smallInside : ∀ r ∈ done, r.sizeByByte < 0x1000 → 0 ≤ r.low
  met : ∀ r ∈ done, ∀ q ∈ done, 0x1000 ≤ r.sizeByByte → q.sizeByByte < 0x1000 → r.high ≤ q.low
  zero : ∀ i, 0 ≤ i → i < poolSize → (∀ b ∈ s.blocks, ¬ b.Holds i) → s.mem i = 0

theorem Request.Apart.symm {r q : Request} (h : r.Apart q) : q.Apart r :=
  fun same => (h same.symm).symm

section Counters
variable {lim : Limits} {sizeByByte : Int}

theorem beginAllocate_page (page : 0x1000 ≤ sizeByByte) (low : 0 ≤ lim.poolUsable)
    (fits : lim.poolUsable + (sizeByByte + 0xfff) / 0x1000 * 0x1000 < 2^63) :
    beginAllocate lim sizeByByte =
      (⟨sizeByByte, lim.poolUsable, (sizeByByte + 0xfff) / 0x1000 * 0x1000⟩,
        { lim with poolUsable := lim.poolUsable + (sizeByByte + 0xfff) / 0x1000 * 0x1000 }) := by
  have rounded : alignsPage sizeByByte = (sizeByByte + 0xfff) / 0x1000 * 0x1000 :=
    alignsPage_eq (by omega) (by omega)
  have exact : int64 (lim.poolUsable + (sizeByByte + 0xfff) / 0x1000 * 0x1000) =
      lim.poolUsable + (sizeByByte + 0xfff) / 0x1000 * 0x1000 := int64_eq (by omega) (by omega)
  simp only [beginAllocate, if_pos page, rounded, exact]

theorem beginAllocate_small (small : sizeByByte < 0x1000) (positive : 0 < sizeByByte)
    (high : lim.poolBigMemEnd ≤ poolSize) (fits : -2^63 ≤ lim.poolBigMemEnd - sizeByByte) :
    beginAllocate lim sizeByByte =
      (⟨sizeByByte, lim.poolBigMemEnd, -sizeByByte⟩,
        { lim with poolBigMemEnd := lim.poolBigMemEnd - sizeByByte }) := by
  have size : poolSize = 10485760 := rfl
  have exact : int64 (lim.poolBigMemEnd + -sizeByByte) = lim.poolBigMemEnd - sizeByByte := by
    rw [← Int.sub_eq_add_neg]
    exact int64_eq (by omega) (by omega)
  simp only [beginAllocate, if_neg (Int.not_le.mpr small), exact]

theorem Request.Taken.later {r : Request} {lim' : Limits} (h : r.Taken lim)
    (up : lim.poolUsable ≤ lim'.poolUsable) (down : lim'.poolBigMemEnd ≤ lim.poolBigMemEnd) :
    r.Taken lim' where
  covers := h.covers
  positive := h.positive
  page := fun page => ⟨(h.page page).1, Int.le_trans (h.page page).2.1 up, (h.page page).2.2⟩
  small := fun small => ⟨Int.le_trans down (h.small small).1, (h.small small).2⟩

/-- A call that returns has seen the other counter on the far side of its extent. -/
theorem finishAllocate_some {r : Request} {off : Int} (h : r.Taken lim)
    (usable : 0 ≤ lim.poolUsable ∧ lim.poolUsable < 2^63) (bottom : -2^63 ≤ lim.poolBigMemEnd)
    (done : finishAllocate lim r = some off) :
    off = r.low ∧ (0x1000 ≤ r.sizeByByte → r.high ≤ lim.poolBigMemEnd) ∧
      (r.sizeByByte < 0x1000 → lim.poolUsable ≤ r.low) := by
  have size : poolSize = 10485760 := rfl
  have covers := h.covers
  have positive := h.positive
  by_cases page : 0x1000 ≤ r.sizeByByte
  · have bounds := h.page page
    simp only [Request.low, Request.high, if_pos page] at covers bounds ⊢
    have exact : int64 (r.oldOff + r.added) = r.oldOff + r.added := int64_eq (by omega) (by omega)
    simp only [finishAllocate, if_pos page, exact] at done
    split at done
    · rename_i fits
      exact ⟨(Option.some.inj done).symm, fun _ => fits, fun small => by omega⟩
    · cases done
  · have bounds := h.small (by omega)
    simp only [Request.low, Request.high, if_neg page] at covers bounds ⊢
    have exact : int64 (r.oldOff + r.added) = r.oldOff + r.added := int64_eq (by omega) (by omega)
    simp only [finishAllocate, if_neg page, exact] at done
    split at done
    · rename_i fits
      exact ⟨(Option.some.inj done).symm, fun big => absurd big page, fun _ => fits⟩
    · cases done

end Counters

section Invariant
variable {Core : Type} {s t : System Core} {done : List Request}

theorem Inv.initial (h : Initial s) : Inv s [] := by
  obtain ⟨lim, mem, idle, blocks, -⟩ := h
  refine { blocks := blocks, usable := ?_, bigMemEnd := ?_, pending := ?_, taken := by simp,
           pendingApart := ?_, pendingDone := by simp, doneApart := List.Pairwise.nil,
           pageInside := by simp, smallInside := by simp, met := by simp,
           zero := fun i low high _ => mem i low high }
  · simp [lim, Limits.init]
  · simp [lim, Limits.init, poolSize]
  · intro c r hr
    rw [idle c] at hr
    cases hr
  · intro c d r q _ hr
    rw [idle c] at hr
    cases hr

theorem Inv.block_apart (h : Inv s done) {r q : Request} (hr : r ∈ done) (hq : q ∈ done)
    (apart : r.Apart q) : r.block.Apart q.block := by
  have cr := (h.taken r hr).covers
  have cq := (h.taken q hq).covers
  simp only [Block.Apart, Request.block]
  by_cases pr : 0x1000 ≤ r.sizeByByte <;> by_cases pq : 0x1000 ≤ q.sizeByByte
  · have := apart (by simp [pr, pq])
    omega
  · have := h.met r hr q hq pr (by omega)
    omega
  · have := h.met q hq r hr pq (by omega)
    omega
  · have := apart (by simp [pr, pq])
    omega

theorem Inv.safe (h : Inv s done) : Safe s where
  disjoint := by
    rw [h.blocks, List.pairwise_map]
    exact h.doneApart.imp_of_mem fun hr hq apart => h.block_apart hr hq apart
  inside := by
    intro b hb
    rw [h.blocks] at hb
    obtain ⟨r, hr, rfl⟩ := List.mem_map.mp hb
    have covers := (h.taken r hr).covers
    simp only [Request.block]
    by_cases page : 0x1000 ≤ r.sizeByByte
    · have := (h.taken r hr).page page
      have := h.pageInside r hr page
      omega
    · have := (h.taken r hr).small (by omega)
      have := h.smallInside r hr (by omega)
      omega
  aligned := by
    intro b hb page
    rw [h.blocks] at hb
    obtain ⟨r, hr, rfl⟩ := List.mem_map.mp hb
    exact ((h.taken r hr).page page).2.2

variable [DecidableEq Core]

theorem Inv.enter (h : Inv s done) {c : Core} {r : Request} {lim : Limits}
    (idle : s.pending c = none)
    (usable : s.limits.poolUsable ≤ lim.poolUsable ∧ lim.poolUsable < 2^63 ∧
      0x1000 ∣ lim.poolUsable)
    (bigMemEnd : -2^63 ≤ lim.poolBigMemEnd ∧ lim.poolBigMemEnd ≤ s.limits.poolBigMemEnd)
    (taken : r.Taken lim) (apart : ∀ q : Request, q.Taken s.limits → r.Apart q) :
    Inv { s with limits := lim, pending := update s.pending c (some r) } done where
  blocks := h.blocks
  usable := ⟨Int.le_trans h.usable.1 usable.1, usable.2⟩
  bigMemEnd := ⟨bigMemEnd.1, Int.le_trans bigMemEnd.2 h.bigMemEnd.2⟩
  pending := by
    intro d q hq
    by_cases same : d = c
    · subst same
      obtain rfl : r = q := by simpa using hq
      exact taken
    · simp only [Function.update_of_ne same] at hq
      exact (h.pending d q hq).later usable.1 bigMemEnd.2
  taken := fun q hq => (h.taken q hq).later usable.1 bigMemEnd.2
  pendingApart := by
    intro d e q p hne hq hp
    by_cases hd : d = c <;> by_cases he : e = c
    · exact absurd (hd.trans he.symm) hne
    · subst hd
      obtain rfl : r = q := by simpa using hq
      simp only [Function.update_of_ne he] at hp
      exact apart p (h.pending e p hp)
    · subst he
      obtain rfl : r = p := by simpa using hp
      simp only [Function.update_of_ne hd] at hq
      exact (apart q (h.pending d q hq)).symm
    · simp only [Function.update_of_ne hd] at hq
      simp only [Function.update_of_ne he] at hp
      exact h.pendingApart d e q p hne hq hp
  pendingDone := by
    intro d q hq p hp
    by_cases same : d = c
    · subst same
      obtain rfl : r = q := by simpa using hq
      exact apart p (h.taken p hp)
    · simp only [Function.update_of_ne same] at hq
      exact h.pendingDone d q hq p hp
  doneApart := h.doneApart
  pageInside := h.pageInside
  smallInside := h.smallInside
  met := h.met
  zero := h.zero

theorem Inv.begin (h : Inv s done) {c : Core} {sizeByByte : Int} (idle : s.pending c = none)
    (positive : 0 < sizeByByte) (fits : FitsInt64 s (.begin c sizeByByte)) :
    Inv { s with
      limits := (beginAllocate s.limits sizeByByte).2
      pending := update s.pending c (some (beginAllocate s.limits sizeByByte).1) } done := by
  have usable := h.usable
  have bigMemEnd := h.bigMemEnd
  by_cases page : 0x1000 ≤ sizeByByte
  · simp only [FitsInt64, if_pos page] at fits
    have taken := beginAllocate_page page usable.1 fits
    refine h.enter idle ?_ ?_ ?_ ?_ <;> rw [taken]
    · simp only
      omega
    · exact ⟨bigMemEnd.1, Int.le_refl _⟩
    · refine ⟨?_, positive, fun _ => ?_, fun small => absurd page (by simpa using small)⟩
      · simp only [Request.low, Request.high, if_pos page]
        omega
      · simp only [Request.low, Request.high, if_pos page]
        exact ⟨usable.1, Int.le_refl _, usable.2.2⟩
    · intro q hq same
      have below := hq.page (same.mp page)
      right
      simp only [Request.low, if_pos page]
      exact below.2.1
  · simp only [FitsInt64, if_neg page] at fits
    have small : sizeByByte < 0x1000 := by omega
    have taken := beginAllocate_small small positive bigMemEnd.2 fits
    refine h.enter idle ?_ ?_ ?_ ?_ <;> rw [taken]
    · exact ⟨Int.le_refl _, usable.2⟩
    · simp only
      omega
    · refine ⟨?_, positive, fun big => absurd big page, fun _ => ?_⟩
      · simp only [Request.low, Request.high, if_neg page]
        omega
      · simp only [Request.low, Request.high, if_neg page]
        omega
    · intro q hq same
      have above := hq.small (by
        have := mt same.mpr page
        omega)
      left
      simp only [Request.high, if_neg page]
      exact above.1

/-- The store-then-load argument: whichever of a page and a small request added second
reads the first one's new limit. -/
theorem Inv.ret (h : Inv s done) {c : Core} {r : Request} {off : Int}
    (hr : s.pending c = some r) (ok : finishAllocate s.limits r = some off) :
    Inv { s with
      pending := update s.pending c none
      blocks := ⟨off, r.sizeByByte⟩ :: s.blocks } (r :: done) := by
  have mine := h.pending c r hr
  obtain ⟨rfl, top, bottom⟩ :=
    finishAllocate_some mine ⟨h.usable.1, h.usable.2.1⟩ h.bigMemEnd.1 ok
  have limit := h.bigMemEnd.2
  refine { blocks := ?_, usable := h.usable, bigMemEnd := h.bigMemEnd, pending := ?_, taken := ?_,
           pendingApart := ?_, pendingDone := ?_, doneApart := ?_, pageInside := ?_,
           smallInside := ?_, met := ?_, zero := ?_ }
  · simp only [h.blocks, List.map_cons, Request.block]
  · intro d q hq
    by_cases same : d = c
    · simp [same] at hq
    · simp only [Function.update_of_ne same] at hq
      exact h.pending d q hq
  · intro q hq
    rcases List.mem_cons.mp hq with rfl | old
    · exact mine
    · exact h.taken q old
  · intro d e q p hne hq hp
    by_cases hd : d = c
    · simp [hd] at hq
    · by_cases he : e = c
      · simp [he] at hp
      · simp only [Function.update_of_ne hd] at hq
        simp only [Function.update_of_ne he] at hp
        exact h.pendingApart d e q p hne hq hp
  · intro d q hq p hp
    by_cases hd : d = c
    · simp [hd] at hq
    · simp only [Function.update_of_ne hd] at hq
      rcases List.mem_cons.mp hp with rfl | old
      · exact h.pendingApart d c q p hd hq hr
      · exact h.pendingDone d q hq p old
  · exact List.pairwise_cons.mpr ⟨fun q hq => h.pendingDone c r hr q hq, h.doneApart⟩
  · intro q hq page
    rcases List.mem_cons.mp hq with rfl | old
    · have := top page
      omega
    · exact h.pageInside q old page
  · intro q hq small
    rcases List.mem_cons.mp hq with rfl | old
    · have := bottom small
      have := h.usable.1
      omega
    · exact h.smallInside q old small
  · intro q hq p hp page small
    rcases List.mem_cons.mp hq with rfl | oldq <;> rcases List.mem_cons.mp hp with rfl | oldp
    · omega
    · exact Int.le_trans (top page) ((h.taken p oldp).small small).1
    · exact Int.le_trans ((h.taken q oldq).page page).2.1 (bottom small)
    · exact h.met q oldq p oldp page small
  · intro i low high outside
    exact h.zero i low high fun b hb => outside b (List.mem_cons_of_mem _ hb)

omit [DecidableEq Core] in
theorem Inv.write (h : Inv s done) {b : Block} {i : Int} {v : BitVec 8} (hb : b ∈ s.blocks)
    (low : 0 ≤ i) (high : i < b.size) :
    Inv { s with mem := update s.mem (b.offset + i) v } done :=
  { h with
    zero := by
      intro j jlow jhigh outside
      have other : j ≠ b.offset + i := by
        rintro rfl
        exact outside b hb ⟨by omega, by omega⟩
      simp only [Function.update_of_ne other]
      exact h.zero j jlow jhigh outside }

theorem inv_step {e : Event Core} (h : ∃ done, Inv s done) (step : Guarded Step FitsInt64 s e t) :
    ∃ done, Inv t done := by
  obtain ⟨done, h⟩ := h
  obtain ⟨fits, step⟩ := step
  cases step with
  | begin _ idle positive _ => exact ⟨done, h.begin idle positive fits⟩
  | ret _ hr ok => exact ⟨_, h.ret hr ok⟩
  | kill _ _ _ => exact ⟨done, { h with }⟩
  | write _ hb low high => exact ⟨done, h.write hb low high⟩

/-- The returned block avoids the earlier ones, and outside blocks nothing was written. -/
theorem Inv.returns_zero (h : Inv s done) : ReturnsZero s := by
  intro c t b step grown i hi
  cases step with
  | @ret c r off _ hr ok =>
      obtain ⟨rfl, -⟩ := List.cons.inj grown
      have safe := (h.ret hr ok).safe
      have inside := safe.inside _ List.mem_cons_self
      simp only [Block.Holds] at hi inside
      refine h.zero i (by omega) (by omega) ?_
      intro d hd clash
      have apart := (List.pairwise_cons.mp safe.disjoint).1 d hd
      simp only [Block.Apart, Block.Holds] at apart clash
      omega
  | kill _ _ _ => exact absurd (congrArg List.length grown) (by simp)

/-- Pool safety: along every interleaving whose interlocked adds stay inside INT64. -/
theorem pool_safe {es : List (Event Core)} (start : Initial s)
    (run : Run (Guarded Step FitsInt64) s es t) : Safe t ∧ ReturnsZero t := by
  obtain ⟨done, h⟩ := run.invariant (I := fun s => ∃ done, Inv s done) inv_step
    ⟨[], Inv.initial start⟩
  exact ⟨h.safe, h.returns_zero⟩

end Invariant

/-- The pool after ALhvMMinitPool. -/
def freshSystem (Core : Type) : System Core := ⟨Limits.init, fun _ => 0, fun _ => none, [], false⟩

theorem freshSystem_initial (Core : Type) : Initial (freshSystem Core) :=
  ⟨rfl, fun _ _ _ => rfl, fun _ => rfl, rfl, rfl⟩

theorem pool_safe_crossing :
    ∃ t : System Bool, (Safe t ∧ ReturnsZero t) ∧ t.blocks = [⟨0, 0x1000⟩, ⟨poolSize - 16, 16⟩] := by
  have taken : ∃ t : System Bool, Run (Guarded Step FitsInt64) (freshSystem Bool)
      [.begin false 0x1000, .begin true 16, .finish true, .finish false] t ∧
      t.blocks = [⟨0, 0x1000⟩, ⟨poolSize - 16, 16⟩] := by
    exact ⟨_, .cons ⟨by unfold FitsInt64; decide, .begin rfl rfl (by decide) (by decide)⟩
      (.cons ⟨by unfold FitsInt64; decide, .begin rfl rfl (by decide) (by decide)⟩
        (.cons ⟨trivial, .ret rfl rfl (show _ = some (poolSize - 16) by decide)⟩
          (.cons ⟨trivial, .ret rfl rfl (show _ = some 0 by decide)⟩ (.nil _)))), rfl⟩
  obtain ⟨t, run, blocks⟩ := taken
  exact ⟨t, pool_safe (freshSystem_initial Bool) run, blocks⟩

/-- The largest INT64 rounds up to the smallest one: the check passes and the returned
block leaves the pool. -/
theorem pool_overflow :
    ∃ (es : List (Event Unit)) (t : System Unit), Initial (freshSystem Unit) ∧
      Run Step (freshSystem Unit) es t ∧ ¬ Safe t := by
  refine ⟨[.begin () (2^63 - 1), .finish ()], _, freshSystem_initial Unit,
    .cons (.begin rfl rfl (by decide) (by decide)) (.cons (.ret rfl rfl (show _ = some 0 by decide)) (.nil _)), ?_⟩
  · intro safe
    have inside := (safe.inside ⟨0, 2^63 - 1⟩ List.mem_cons_self).2
    simp [poolSize] at inside

end LMalz.Pool
