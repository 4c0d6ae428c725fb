import LMalz.Lib.BitField
import LMalz.Vmx.Core

/- The host IDT: ALhvIDT_prepare_host_idt replaces the offsets of some gates of the system. -/
namespace LMalz.Host
open Function (update update_self update_of_ne)
open Vmx (hookedVectors)

abbrev Idte := BitVec 128

namespace Idte
variable (e : Idte)

def offsetLow : BitVec 16 := BitField.get e 0 16
def segmentSelector : BitVec 16 := BitField.get e 16 16
def interruptStackTable : BitVec 3 := BitField.get e 32 3
def offsetMiddle : BitVec 16 := BitField.get e 48 16
def offsetHigh : BitVec 32 := BitField.get e 64 32

/-- Where the processor goes through the gate. -/
def offset : BitVec 64 := e.offsetHigh ++ e.offsetMiddle ++ e.offsetLow

/-- The selector, the flags below `offset_middle` and `reserved`. -/
def attributes : BitVec 16 × BitVec 16 × BitVec 32 :=
  (e.segmentSelector, BitField.get e 32 16, BitField.get e 96 32)

end Idte

def alVmSetIdteFunAdd (idte : Idte) (functionAdd : BitVec 64) : Idte :=
  let idte := BitField.set idte 0 (((functionAdd >>> 0) &&& 0xFFFF).setWidth 16)
  let idte := BitField.set idte 48 (((functionAdd >>> 16) &&& 0xFFFF).setWidth 16)
  BitField.set idte 64 (((functionAdd >>> 32) &&& 0xFFFFFFFF).setWidth 32)

/-- The 256 gates in 0x1000 bytes. -/
abbrev Idt := BitVec 8 → Idte

/-- ALhvIDT_prepare_host_idt with the page it allocates; `isr` has the addresses of the procedures
of idt_.asm, and `system` the gates behind SIDT. -/
def alHvIdtPrepareHostIdt (allocated : Bool) (system : Option Idt)
    (isr : BitVec 32 → BitVec 64) : Option Idt :=
  match allocated, system with
  | true, some idt => some <| hookedVectors.foldl
      (fun idt v => update idt (v.setWidth 8) (alVmSetIdteFunAdd (idt (v.setWidth 8)) (isr v))) idt
  | _, _ => none

section Gates
variable (e : Idte) (a : BitVec 64)

theorem mask_get {lo len : Nat} {mask : BitVec 64} (low : mask.toNat = 2 ^ len - 1) :
    ((a >>> lo) &&& mask).setWidth len = BitField.get a lo len := by
  apply BitVec.eq_of_toNat_eq
  rw [BitVec.toNat_setWidth, BitField.toNat_and_low low, BitField.toNat_get,
    BitVec.toNat_ushiftRight,
    Nat.shiftRight_eq_div_pow, Nat.mod_mod]

theorem alVmSetIdteFunAdd_eq : alVmSetIdteFunAdd e a =
    BitField.set (BitField.set (BitField.set e 0 (BitField.get a 0 16)) 48
      (BitField.get a 16 16)) 64
      (BitField.get a 32 32) := by
  rw [alVmSetIdteFunAdd, mask_get a (by decide), mask_get a (by decide), mask_get a (by decide)]

theorem offset_alVmSetIdteFunAdd : (alVmSetIdteFunAdd e a).offset = a := by
  have low : (alVmSetIdteFunAdd e a).offsetLow = BitField.get a 0 16 := by
    rw [alVmSetIdteFunAdd_eq, Idte.offsetLow, BitField.get_set_apart _ (by decide),
      BitField.get_set_apart _ (by decide),
      BitField.get_set _ (by decide)]
  have middle : (alVmSetIdteFunAdd e a).offsetMiddle = BitField.get a 16 16 := by
    rw [alVmSetIdteFunAdd_eq, Idte.offsetMiddle, BitField.get_set_apart _ (by decide),
      BitField.get_set _ (by decide)]
  have high : (alVmSetIdteFunAdd e a).offsetHigh = BitField.get a 32 32 := by
    rw [alVmSetIdteFunAdd_eq, Idte.offsetHigh, BitField.get_set _ (by decide)]
  have top : BitField.get a 32 32 ++ BitField.get a 16 16 = BitField.get a 16 48 :=
    BitField.get_append a 16 16 32
  have whole : BitField.get a 16 48 ++ BitField.get a 0 16 = BitField.get a 0 64 :=
    BitField.get_append a 0 16 48
  rw [Idte.offset, low, middle, high, top, whole]
  exact BitVec.extractLsb'_eq_self

theorem attributes_alVmSetIdteFunAdd : (alVmSetIdteFunAdd e a).attributes = e.attributes := by
  simp only [alVmSetIdteFunAdd_eq, Idte.attributes, Idte.segmentSelector]
  simp (disch := decide) only [BitField.get_set_apart]

/-- A key is updated once, from what it had at first. -/
theorem foldl_update_apply {K B : Type} {A : Type} [DecidableEq K] (key : A → K)
    (f : A → B → B) {l : List A}
    (once : (l.map key).Nodup) (t : K → B) :
    (∀ a ∈ l, l.foldl (fun t a => update t (key a) (f a (t (key a)))) t (key a) = f a (t (key a))) ∧
      ∀ k ∉ l.map key, l.foldl (fun t a => update t (key a) (f a (t (key a)))) t k = t k := by
  induction l generalizing t with
  | nil => exact ⟨fun a mem => absurd mem List.not_mem_nil, fun _ _ => rfl⟩
  | cons b l ih =>
      obtain ⟨first, rest⟩ := List.nodup_cons.mp once
      obtain ⟨set, kept⟩ := ih rest (update t (key b) (f b (t (key b))))
      refine ⟨fun a mem => ?_, fun k outside => ?_⟩
      · rw [List.foldl_cons]
        rcases List.mem_cons.mp mem with rfl | later
        · rw [kept _ first, update_self]
        · have other : key a ≠ key b := by
            intro same
            exact first (same ▸ List.mem_map_of_mem later)
          rw [set a later, update_of_ne other]
      · rw [List.map_cons, List.mem_cons, not_or] at outside
        rw [List.foldl_cons, kept k outside.2, update_of_ne outside.1]

variable {system idt : Idt} {isr : BitVec 32 → BitVec 64}

theorem hookedVectors_nodup : (hookedVectors.map (BitVec.setWidth 8)).Nodup := by decide

/-- A hooked vector goes to its own procedure, through a gate like that of the system; the other
gates are those of the system. -/
theorem alHvIdtPrepareHostIdt_gates (prepared :
    alHvIdtPrepareHostIdt true (some system) isr = some idt) :
    (∀ v ∈ hookedVectors, (idt (v.setWidth 8)).offset = isr v ∧
      (idt (v.setWidth 8)).attributes = (system (v.setWidth 8)).attributes) ∧
    ∀ v ∉ hookedVectors.map (BitVec.setWidth 8), idt v = system v := by
  simp only [alHvIdtPrepareHostIdt, Option.some.injEq] at prepared
  obtain ⟨set, kept⟩ := foldl_update_apply (BitVec.setWidth 8)
    (fun v e => alVmSetIdteFunAdd e (isr v))
    hookedVectors_nodup system
  rw [← prepared]
  refine ⟨fun v mem => ?_, kept⟩
  rw [set v mem]
  exact ⟨offset_alVmSetIdteFunAdd _ _, attributes_alVmSetIdteFunAdd _ _⟩

end Gates

end LMalz.Host
