import LMalz.Host.AccessMemory
import LMalz.Vmx.Core

/- The three copy routines on virtual memory: ALhvMMCopyData, ALmemCopyData and ALhvIDTsafeCopy. -/
namespace LMalz.Host
open ByteCopy (copy move moveUnits moveWhile Apart)
open Vmx (ExceptionInfo Fault safeHandler)

/-- Memory by virtual addresses. -/
abbrev VirtualMemory := BitVec 64 → BitVec 8

/-- The `k`-th byte behind an address. -/
def cell (add : BitVec 64) (k : Nat) : BitVec 64 := add + BitVec.ofNat 64 k

/-- ALhvMMCopyData where the addresses stand for the cells that `translate` gives. -/
def alHvMmCopyDataIn {A : Type} [DecidableEq A] (translate : BitVec 64 → A)
    (desAdd souAdd size : BitVec 64) (m : A → BitVec 8) : Bool × (A → BitVec 8) :=
  (true, moveUnits (translate ∘ cell desAdd) (translate ∘ cell souAdd) (Send.copyUnits size.toNat) m)

def alMemCopyData (desAdd souAdd size : BitVec 64) (m : VirtualMemory) :
    BitVec 32 × VirtualMemory :=
  (0, moveUnits (cell desAdd) (cell souAdd) (Send.copyUnits size.toNat) m)

/-- Which bytes a load or a store may touch, and the exception of one that may not. -/
structure Access where
  readable : BitVec 64 → Bool
  writable : BitVec 64 → Bool
  loadFault : BitVec 64 → Nat → Fault
  storeFault : BitVec 64 → Nat → Fault

section Safe
variable (access : Access)

/-- ALhvIDTwriteMemory64_asm and those for 4, 2 and 1 bytes: a load and a store, which do nothing if
they fault. safe_handler returns from the leaf. -/
def writeMemoryAsm (n : Nat) (toAdd fromAdd : BitVec 64) (info : ExceptionInfo)
    (m : VirtualMemory) : ExceptionInfo × VirtualMemory :=
  if ∀ k < n, access.readable (cell fromAdd k) = true then
    if ∀ k < n, access.writable (cell toAdd k) = true then (info, move (cell toAdd) (cell fromAdd) m n)
    else ((safeHandler info (access.storeFault toAdd n)).2, m)
  else ((safeHandler info (access.loadFault fromAdd n)).2, m)

/-- The calls of the leaves in ALhvIDTsafeCopy, each with its check of `find`. -/
def safeCopyUnits (desAdd souAdd : BitVec 64) :
    List (Nat × Nat) → ExceptionInfo → VirtualMemory → Bool × ExceptionInfo × VirtualMemory
  | [], info, m => (true, { info with monitor := false }, m)
  | (o, n) :: units, info, m =>
      let (info, m) := writeMemoryAsm access n (cell desAdd o) (cell souAdd o) info m
      if info.find then (false, { info with monitor := false }, m)
      else safeCopyUnits desAdd souAdd units info m

def alHvIdtSafeCopy (desAdd souAdd size : BitVec 64) (info : ExceptionInfo) (m : VirtualMemory) :
    Bool × ExceptionInfo × VirtualMemory :=
  safeCopyUnits access desAdd souAdd (Send.copyUnits size.toNat)
    { info with monitor := true, find := false } m

end Safe

/-- The first `n` bytes at the destination are those of the source, and no other byte has changed. -/
structure CopiedBytes (desAdd souAdd : BitVec 64) (n : Nat) (m m' : VirtualMemory) : Prop where
  copied : ∀ k < n, m' (cell desAdd k) = m (cell souAdd k)
  frame : ∀ x, (∀ k < n, x ≠ cell desAdd k) → m' x = m x

/-- Byte `k` may be read at the source and written at the destination. -/
def Access.Allows (access : Access) (desAdd souAdd : BitVec 64) (k : Nat) : Prop :=
  access.readable (cell souAdd k) = true ∧ access.writable (cell desAdd k) = true

instance (access : Access) (desAdd souAdd : BitVec 64) (k : Nat) :
    Decidable (access.Allows desAdd souAdd k) := inferInstanceAs (Decidable (_ ∧ _))

section Copies
variable {access : Access} {desAdd souAdd size : BitVec 64} {n : Nat} {m : VirtualMemory}
  {info : ExceptionInfo}

/-- The host space of ALhvMMaccessPhysicalMemory is one such translation. -/
theorem alHvMmCopyData_translate (h : HostSpace) (desAdd souAdd size : BitVec 64) (m : ByteMemory) :
    (alHvMmCopyDataIn h.translate desAdd souAdd size m).2 = alHvMmCopyData h desAdd souAdd size m :=
  rfl

theorem cell_cell (add : BitVec 64) (o k : Nat) : cell (cell add o) k = cell add (o + k) := by
  rw [cell, cell, cell, BitVec.ofNat_add, BitVec.add_assoc]

theorem cell_injective {add : BitVec 64} {i k : Nat} (hi : i < 2 ^ 64) (hk : k < 2 ^ 64)
    (same : cell add i = cell add k) : i = k := by
  have offsets : BitVec.ofNat 64 i = BitVec.ofNat 64 k := (BitVec.add_right_inj _).mp same
  have values := congrArg BitVec.toNat offsets
  rw [BitVec.toNat_ofNat, BitVec.toNat_ofNat, Nat.mod_eq_of_lt hi, Nat.mod_eq_of_lt hk] at values
  exact values

theorem copied_copy (apart : Apart (cell desAdd) (cell souAdd) n) (small : n ≤ 2 ^ 64) :
    CopiedBytes desAdd souAdd n m (copy (cell desAdd) (cell souAdd) n m) where
  copied _ hk := ByteCopy.copy_at apart hk fun _ hi same => cell_injective (by omega) (by omega) same
  frame _ outside := ByteCopy.copy_frame outside

theorem moveUnits_copied (apart : Apart (cell desAdd) (cell souAdd) size.toNat) :
    CopiedBytes desAdd souAdd size.toNat m
      (moveUnits (cell desAdd) (cell souAdd) (Send.copyUnits size.toNat) m) := by
  have whole := ByteCopy.moveUnits_tiles (m := m) apart (Send.copyUnits_tiles size.toNat)
  rw [show moveUnits (cell desAdd) (cell souAdd) (Send.copyUnits size.toNat) m = _ from whole]
  exact copied_copy apart size.isLt.le

theorem writeMemoryAsm_unit (o : Nat) (monitored : info.monitor = true) :
    (∀ k < n, access.Allows desAdd souAdd (o + k)) ∧
      writeMemoryAsm access n (cell desAdd o) (cell souAdd o) info m =
        (info, move (fun k => cell desAdd (o + k)) (fun k => cell souAdd (o + k)) m n) ∨
    (¬ ∀ k < n, access.Allows desAdd souAdd (o + k)) ∧
      ∃ info', writeMemoryAsm access n (cell desAdd o) (cell souAdd o) info m = (info', m) ∧
        info'.find = true := by
  unfold writeMemoryAsm
  simp only [cell_cell, Access.Allows, safeHandler, monitored]
  by_cases read : ∀ k < n, access.readable (cell souAdd (o + k)) = true
  · rw [if_pos read]
    by_cases write : ∀ k < n, access.writable (cell desAdd (o + k)) = true
    · rw [if_pos write]
      refine .inl ⟨fun k hk => ⟨read k hk, write k hk⟩, ?_⟩
      simp only [funext (cell_cell desAdd o), funext (cell_cell souAdd o)]
    · rw [if_neg write]
      exact .inr ⟨fun all => write fun k hk => (all k hk).2, _, rfl, rfl⟩
  · rw [if_neg read]
    exact .inr ⟨fun all => read fun k hk => (all k hk).1, _, rfl, rfl⟩

/-- The safe copy moves units up to the first that faults. -/
theorem safeCopyUnits_eq (units : List (Nat × Nat)) (info : ExceptionInfo) (monitored : info.monitor = true)
    (clear : info.find = false) :
    ∃ info', safeCopyUnits access desAdd souAdd units info m =
        ((moveWhile (access.Allows desAdd souAdd) (cell desAdd) (cell souAdd) units m).1, info',
          (moveWhile (access.Allows desAdd souAdd) (cell desAdd) (cell souAdd) units m).2) ∧
      info'.monitor = false := by
  induction units generalizing m with
  | nil => exact ⟨_, rfl, rfl⟩
  | cons u us ih =>
      obtain ⟨o, n⟩ := u
      rcases writeMemoryAsm_unit (n := n) (m := m) o monitored with
        ⟨all, run⟩ | ⟨stop, info', run, found⟩
      · obtain ⟨info', rest, off⟩ := ih (m := move (fun k => cell desAdd (o + k))
          (fun k => cell souAdd (o + k)) m n)
        refine ⟨info', ?_, off⟩
        rw [safeCopyUnits, run, moveWhile, if_pos all]
        dsimp only
        rw [if_neg (by rw [clear]; decide)]
        exact rest
      · refine ⟨{ info' with monitor := false }, ?_, rfl⟩
        rw [safeCopyUnits, run, moveWhile, if_neg stop]
        dsimp only
        rw [if_pos found]

theorem alHvIdtSafeCopy_cases (apart : Apart (cell desAdd) (cell souAdd) size.toNat) :
    let r := alHvIdtSafeCopy access desAdd souAdd size info m
    r.2.1.monitor = false ∧
      ((∀ k < size.toNat, access.Allows desAdd souAdd k) ∧ r.1 = true ∧
          r.2.2 = copy (cell desAdd) (cell souAdd) size.toNat m ∨
        (¬ ∀ k < size.toNat, access.Allows desAdd souAdd k) ∧ r.1 = false ∧
          ∃ p < size.toNat, r.2.2 = copy (cell desAdd) (cell souAdd) p m) := by
  have tiles := Send.copyUnits_tiles size.toNat
  obtain ⟨info', run, off⟩ := safeCopyUnits_eq (m := m) (Send.copyUnits size.toNat)
    { info with monitor := true, find := false } rfl rfl
  intro r
  have whole : r = _ := run
  rw [whole]
  refine ⟨off, ?_⟩
  by_cases all : ∀ k < size.toNat, access.Allows desAdd souAdd k
  · have copied := ByteCopy.moveWhile_all (m := m) apart tiles all
    have done : moveWhile (access.Allows desAdd souAdd) (cell desAdd) (cell souAdd)
        (Send.copyUnits size.toNat) m = _ := copied
    rw [done]
    exact .inl ⟨all, rfl, rfl⟩
  · simp only [not_forall] at all
    obtain ⟨bad, high, stop⟩ := all
    obtain ⟨p, inside, copied⟩ := ByteCopy.moveWhile_stops (m := m) apart tiles (Nat.zero_le bad) high stop
    have done : moveWhile (access.Allows desAdd souAdd) (cell desAdd) (cell souAdd)
        (Send.copyUnits size.toNat) m = _ := copied
    rw [done]
    exact .inr ⟨fun all => stop (all bad high), rfl, p, inside, rfl⟩

/-- The three routines copy exactly `size` bytes; the safe one copies a prefix if it may not touch
all of them, and it switches its monitor off. -/
theorem copies_exact (desAdd souAdd size : BitVec 64)
    (apart : ∀ i k, i < size.toNat → k < size.toNat → cell desAdd i ≠ cell souAdd k) :
    (∀ m : VirtualMemory,
      CopiedBytes desAdd souAdd size.toNat m (alHvMmCopyDataIn id desAdd souAdd size m).2) ∧
    (∀ m, CopiedBytes desAdd souAdd size.toNat m (alMemCopyData desAdd souAdd size m).2) ∧
    ∀ (access : Access) (info : ExceptionInfo) (m : VirtualMemory),
      let r := alHvIdtSafeCopy access desAdd souAdd size info m
      (r.1 = true ↔ ∀ k < size.toNat,
        access.readable (cell souAdd k) = true ∧ access.writable (cell desAdd k) = true) ∧
      (r.1 = true → CopiedBytes desAdd souAdd size.toNat m r.2.2) ∧
      (r.1 = false → ∃ p < size.toNat, CopiedBytes desAdd souAdd p m r.2.2) ∧
      r.2.1.monitor = false := by
  refine ⟨fun m => moveUnits_copied apart, fun m => moveUnits_copied apart,
    fun access info m => ?_⟩
  intro r
  obtain ⟨off, ⟨all, one, moved⟩ | ⟨some, zero, p, inside, moved⟩⟩ :=
    alHvIdtSafeCopy_cases (m := m) apart
  · refine ⟨iff_of_true one all, fun _ => ?_, fun zero => ?_, off⟩
    · rw [show r.2.2 = _ from moved]
      exact copied_copy apart size.isLt.le
    · exact absurd (one.symm.trans zero) Bool.false_ne_true.symm
  · refine ⟨iff_of_false (fun one => ?_) some, fun one => ?_, fun _ => ⟨p, inside, ?_⟩, off⟩
    · exact absurd (zero.symm.trans one) Bool.false_ne_true
    · exact absurd (zero.symm.trans one) Bool.false_ne_true
    · have part : Apart (cell desAdd) (cell souAdd) p := fun i k hi hk =>
        apart i k (hi.trans inside) (hk.trans inside)
      rw [show r.2.2 = _ from moved]
      exact copied_copy part (inside.trans size.isLt).le

/-- 15 bytes, of which byte 13 of the source cannot be read: the words, the doubleword and one byte. -/
theorem copies_exact_fifteen :
    let access : Access :=
      ⟨fun a => a != 13, fun _ => true, fun _ _ => ⟨14, 0, by decide⟩, fun _ _ => ⟨14, 0, by decide⟩⟩
    let r := alHvIdtSafeCopy access 0x100 0 15 ⟨false, false, 0, 0⟩ fun a => a.setWidth 8
    r.1 = false ∧ r.2.1 = ⟨false, true, 14, 0⟩ ∧ r.2.2 0x10C = 12 ∧ r.2.2 0x10D = 13 ∧
      ∃ p < 15, CopiedBytes 0x100 0 p (fun a => a.setWidth 8) r.2.2 := by
  intro access r
  have apart : ∀ i < 15, ∀ k < 15, cell 0x100 i ≠ cell 0 k := by decide
  obtain ⟨-, -, stopped, -⟩ := (copies_exact 0x100 0 15 fun i k hi hk => apart i hi k hk).2.2 access
    ⟨false, false, 0, 0⟩ fun a => a.setWidth 8
  exact ⟨by decide, by decide, by decide, by decide, stopped (by decide)⟩

end Copies
end LMalz.Host
