import LMalz.Host.AccessMemory

/- ALhvMMaccessMemoryFromPM copies byte by byte through ALhvMMgetPA. -/
namespace LMalz.Host
open Ept (Entry Frame Index largePage pageFrameNumber pml4Index pdptIndex pdIndex ptIndex)
open Monitor (pagesBefore)
open ByteCopy (copy Apart)

/-- The entries that ALhvMMgetPA reads. -/
def lookups (m : Memory) (table : Frame) (va : BitVec 64) : List (Frame × Index) :=
  let pml4e := m table (pml4Index va)
  (table, pml4Index va) :: if present pml4e = false then [] else
    let pdpte := m (pageFrameNumber pml4e) (pdptIndex va)
    (pageFrameNumber pml4e, pdptIndex va) :: if present pdpte = false then [] else
      let pde := m (pageFrameNumber pdpte) (pdIndex va)
      (pageFrameNumber pdpte, pdIndex va) :: if present pde = false ∨ largePage pde then [] else
        [(pageFrameNumber pde, ptIndex va)]

section Bytes
variable (h : HostSpace) (m : ByteMemory) (cr3 va : BitVec 64) (buff : BitVec 64) (isWrite : Bool)

/-- The page of byte `k` of the range. -/
def pageAt (k : Nat) : BitVec 64 := (va + BitVec.ofNat 64 k) &&& ~~~0xfff

/-- ALhvMMgetPA finds the page of byte `k`. -/
def Mapped (k : Nat) : Prop := alHvMmGetPa (words m) (pageAt va k) cr3 ≠ 0

instance (k : Nat) : Decidable (Mapped m cr3 va k) := inferInstanceAs (Decidable (_ ≠ _))

/-- ALhvMMgetPA of the page plus the offset in it. -/
def physicalByte (k : Nat) : BitVec 64 :=
  alHvMmGetPa (words m) (pageAt va k) cr3 + ((va + BitVec.ofNat 64 k) &&& 0xfff)

def desByte : Nat → BitVec 64 := if isWrite then physicalByte m cr3 va else h.byte buff
def souByte : Nat → BitVec 64 := if isWrite then h.byte buff else physicalByte m cr3 va

/-- The memory after the first `n` bytes have been copied one by one. -/
def copied (n : Nat) : ByteMemory :=
  copy (desByte h m cr3 va buff isWrite) (souByte h m cr3 va buff isWrite) n m

/-- How the copy byte by byte ends: after all bytes, or before the first whose page ALhvMMgetPA does
not find. -/
inductive Bytewise (size : BitVec 64) : Bool × ByteMemory → Prop
  | all (mapped : ∀ k, k < size.toNat → Mapped m cr3 va k) :
      Bytewise size (true, copied h m cr3 va buff isWrite size.toNat)
  | stopped (n : Nat) (inside : n < size.toNat) (mapped : ∀ k, k < n → Mapped m cr3 va k)
      (missing : ¬ Mapped m cr3 va n) : Bytewise size (false, copied h m cr3 va buff isWrite n)

/-- The range ends below 2^64, its frames are in the window, and what is written is neither the
other side nor an entry that ALhvMMgetPA reads. -/
structure Separate (size : BitVec 64) : Prop where
  noWrap : va.toNat + size.toNat < 2^64
  window : ∀ k, k < size.toNat → Mapped m cr3 va k → (physicalByte m cr3 va k).toNat < 2^36
  apart : ∀ i k, i < size.toNat → k < size.toNat → Mapped m cr3 va k →
    h.byte buff i ≠ physicalByte m cr3 va k
  tables : ∀ i, i < size.toNat → (isWrite = true → Mapped m cr3 va i) → ∀ k, k < size.toNat →
    ∀ r ∈ lookups (words m) (addressOfPageDirectory cr3) (pageAt va k), ∀ b, b < 8 →
      wordByte r.1 r.2 b ≠ desByte h m cr3 va buff isWrite i

end Bytes

section Lookups
variable {m m' : ByteMemory} {cr3 va : BitVec 64}

theorem words_congr {f : Frame} {a : Index} (same : ∀ b, b < 8 → m' (wordByte f a b) = m (wordByte f a b)) :
    words m' f a = words m f a := by
  simp only [words]
  rw [same 0 (by decide), same 1 (by decide), same 2 (by decide), same 3 (by decide),
    same 4 (by decide), same 5 (by decide), same 6 (by decide), same 7 (by decide)]

theorem getPa_congr {u u' : Memory}
    (same : ∀ r ∈ lookups u (addressOfPageDirectory cr3) va, u' r.1 r.2 = u r.1 r.2) :
    alHvMmGetPa u' va cr3 = alHvMmGetPa u va cr3 := by
  have none : present (0 : Entry) = false := rfl
  have pml4e := same _ List.mem_cons_self
  rcases here : present (u (addressOfPageDirectory cr3) (pml4Index va))
  · simp only [alHvMmGetPa, alHvMmGetPde, alHvMmGetPdpte, alHvMmGetPml4e, pml4e, here, none,
      if_true]
  simp only [lookups, here, Bool.true_eq_false, if_false, List.mem_cons, forall_eq_or_imp] at same
  obtain ⟨-, pdpte, same⟩ := same
  simp only [alHvMmGetPa, alHvMmGetPte, alHvMmGetPde, alHvMmGetPdpte, alHvMmGetPml4e, pml4e, here,
    Bool.true_eq_false, if_false, pdpte]
  generalize u (pageFrameNumber (u (addressOfPageDirectory cr3) (pml4Index va))) (pdptIndex va) = e
    at same ⊢
  rcases here' : present e
  · simp only [none, if_true]
  simp only [here', Bool.true_eq_false, if_false, List.mem_cons, forall_eq_or_imp] at same
  obtain ⟨pde, same⟩ := same
  simp only [Bool.true_eq_false, if_false, pde]
  generalize u (pageFrameNumber e) (pdIndex va) = e' at same ⊢
  by_cases leaf : present e' = false ∨ largePage e' = true
  · rcases leaf with absent | large
    · simp only [absent, if_true]
    · simp only [large, if_true]
  rw [if_neg leaf] at same
  have pte := same _ List.mem_cons_self
  rw [not_or] at leaf
  simp only [leaf.1, leaf.2, pte]

end Lookups

section Chunks
variable {h : HostSpace} {m : ByteMemory} {cr3 va buff size : BitVec 64} {isWrite : Bool} {n : Nat}

theorem toNat_add_ofNat {a : BitVec 64} {k : Nat} (inside : a.toNat + k < 2^64) :
    (a + BitVec.ofNat 64 k).toNat = a.toNat + k := by
  rw [BitVec.toNat_add, BitVec.toNat_ofNat, Nat.mod_eq_of_lt (show k < 2^64 by omega),
    Nat.mod_eq_of_lt inside]

theorem toNat_offset (a : BitVec 64) : (a &&& 0xfff).toNat = a.toNat % 4096 :=
  BitField.toNat_and_low (by decide : (0xfff : BitVec 64).toNat = 2^12 - 1)

theorem toNat_page (a : BitVec 64) : (a &&& ~~~0xfff).toNat = a.toNat / 4096 * 4096 :=
  BitField.toNat_and_not_low (by decide : (0xfff : BitVec 64).toNat = 2^12 - 1)

theorem toNat_pageAt {k : Nat} (inside : va.toNat + k < 2^64) :
    (pageAt va k).toNat = (va.toNat + k) / 4096 * 4096 := by
  rw [pageAt, toNat_page, toNat_add_ofNat inside]

theorem pageAt_eq {p o : BitVec 64} {k : Nat} (page : p.toNat = (va.toNat + n) / 4096 * 4096)
    (offset : o.toNat = (va.toNat + n) % 4096) (inside : va.toNat + (n + k) < 2^64)
    (fits : o.toNat + k < 4096) :
    pageAt va (n + k) = p ∧ (va + BitVec.ofNat 64 (n + k)) &&& 0xfff = o + BitVec.ofNat 64 k := by
  constructor
  · apply BitVec.eq_of_toNat_eq
    rw [toNat_pageAt inside, page]
    omega
  · apply BitVec.eq_of_toNat_eq
    rw [toNat_offset, toNat_add_ofNat inside, toNat_add_ofNat (by omega)]
    omega

variable (sep : Separate h m cr3 va buff isWrite size)
include sep

/-- What has been copied so far does not change what ALhvMMgetPA finds. -/
theorem Separate.getPa_kept (inside : n ≤ size.toNat) (mapped : ∀ k, k < n → Mapped m cr3 va k) {k : Nat}
    (hk : k < size.toNat) :
    alHvMmGetPa (words (copied h m cr3 va buff isWrite n)) (pageAt va k) cr3 =
      alHvMmGetPa (words m) (pageAt va k) cr3 := by
  refine getPa_congr fun r mem => words_congr fun b hb => ByteCopy.copy_frame fun i hi => ?_
  exact sep.tables i (by omega) (fun _ => mapped i hi) k hk r mem b hb

/-- One call of ALhvMMreadPM or ALhvMMwritePM continues the copy. -/
theorem Separate.access {p o : BitVec 64} (len : BitVec 64) (page : p.toNat = (va.toNat + n) / 4096 * 4096)
    (offset : o.toNat = (va.toNat + n) % 4096) (inside : n + len.toNat ≤ size.toNat)
    (fits : o.toNat + len.toNat ≤ 4096) (here : alHvMmGetPa (words m) p cr3 ≠ 0)
    (mapped : ∀ k, k < n → Mapped m cr3 va k) :
    (∀ k, k < n + len.toNat → Mapped m cr3 va k) ∧
    alHvMmAccessPhysicalMemory h (alHvMmGetPa (words m) p cr3 + o) (buff + BitVec.ofNat 64 n) len isWrite
        (copied h m cr3 va buff isWrite n) =
      (true, copied h m cr3 va buff isWrite (n + len.toNat)) := by
  have noWrap := sep.noWrap
  have place : ∀ k, k < len.toNat → pageAt va (n + k) = p ∧
      (va + BitVec.ofNat 64 (n + k)) &&& 0xfff = o + BitVec.ofNat 64 k :=
    fun k hk => pageAt_eq page offset (by omega) (by omega)
  have mapped' : ∀ k, k < n + len.toNat → Mapped m cr3 va k := by
    intro k hk
    by_cases before : k < n
    · exact mapped k before
    · have at_k := (place (k - n) (by omega)).1
      rw [Nat.add_sub_cancel' (by omega)] at at_k
      rw [Mapped, at_k]
      exact here
  refine ⟨mapped', ?_⟩
  have physical : ∀ k, k < len.toNat →
      h.byte (h.memBase + (alHvMmGetPa (words m) p cr3 + o)) k = physicalByte m cr3 va (n + k) := by
    intro k hk
    have same : alHvMmGetPa (words m) p cr3 + o + BitVec.ofNat 64 k = physicalByte m cr3 va (n + k) := by
      rw [physicalByte, (place k hk).1, (place k hk).2, BitVec.add_assoc]
    rw [HostSpace.byte, BitVec.add_assoc, same]
    exact h.window _ (sep.window (n + k) (by omega) (mapped' (n + k) (by omega)))
  have buffer : ∀ k, h.byte (buff + BitVec.ofNat 64 n) k = h.byte buff (n + k) := by
    intro k
    rw [HostSpace.byte, HostSpace.byte, BitVec.add_assoc, ← BitVec.ofNat_add]
  have apart : ∀ i k, i < len.toNat → k < len.toNat →
      h.byte buff (n + i) ≠ physicalByte m cr3 va (n + k) :=
    fun i k hi hk => sep.apart _ _ (by omega) (by omega) (mapped' (n + k) (by omega))
  rw [alHvMmAccessPhysicalMemory, if_pos h.mapped, copied, copied, ByteCopy.copy_add len.toNat]
  cases isWrite with
  | true =>
      rw [if_pos rfl, alHvMmCopyData_eq fun i k hi hk => by
        rw [physical i hi, buffer k]
        exact (apart k i hk hi).symm]
      exact congrArg (Prod.mk true) (ByteCopy.copy_congr physical fun k _ => buffer k)
  | false =>
      rw [if_neg Bool.false_ne_true, alHvMmCopyData_eq fun i k hi hk => by
        rw [physical k hk, buffer i]
        exact apart i k hi hk]
      exact congrArg (Prod.mk true) (ByteCopy.copy_congr (fun k _ => buffer k) physical)

theorem Separate.access_aligned {p : BitVec 64} (len : BitVec 64) (page : p.toNat = va.toNat + n)
    (aligned : (va.toNat + n) % 4096 = 0) (inside : n + len.toNat ≤ size.toNat)
    (fits : len.toNat ≤ 4096) (here : alHvMmGetPa (words m) p cr3 ≠ 0)
    (mapped : ∀ k, k < n → Mapped m cr3 va k) :
    (∀ k, k < n + len.toNat → Mapped m cr3 va k) ∧
    alHvMmAccessPhysicalMemory h (alHvMmGetPa (words m) p cr3) (buff + BitVec.ofNat 64 n) len isWrite
        (copied h m cr3 va buff isWrite n) =
      (true, copied h m cr3 va buff isWrite (n + len.toNat)) := by
  have zero : (0#64).toNat = 0 := rfl
  have call := sep.access (o := 0#64) len (page.trans (by omega)) (by rw [zero, aligned]) inside
    (by rw [zero]; omega) here mapped
  rwa [BitVec.add_zero] at call

theorem Separate.lookup {p : BitVec 64} (page : p.toNat = (va.toNat + n) / 4096 * 4096)
    (inside : n < size.toNat) (mapped : ∀ k, k < n → Mapped m cr3 va k) :
    alHvMmGetPa (words (copied h m cr3 va buff isWrite n)) p cr3 = alHvMmGetPa (words m) p cr3 ∧
      (alHvMmGetPa (words m) p cr3 ≠ 0 ↔ Mapped m cr3 va n) := by
  have noWrap := sep.noWrap
  have same : pageAt va n = p := by
    apply BitVec.eq_of_toNat_eq
    rw [toNat_pageAt (by omega), page]
  rw [← same]
  exact ⟨sep.getPa_kept (by omega) mapped inside, Iff.rfl⟩

/-- The loop over the pages in the middle, from byte `n` on. -/
theorem Separate.accessMiddlePages {cur : BitVec 64} (stop : BitVec 64) (count : Nat)
    (first : cur.toNat = va.toNat + n) (aligned : (va.toNat + n) % 4096 = 0)
    (last : stop.toNat = va.toNat + n + 4096 * count) (inside : n + 4096 * count ≤ size.toNat)
    (mapped : ∀ k, k < n → Mapped m cr3 va k) :
    (∃ n' off, n' < size.toNat ∧ (∀ k, k < n' → Mapped m cr3 va k) ∧ ¬ Mapped m cr3 va n' ∧
      accessMiddlePages h buff cr3 isWrite (pagesBefore stop cur) (BitVec.ofNat 64 n)
        (copied h m cr3 va buff isWrite n) = (false, off, copied h m cr3 va buff isWrite n')) ∨
    ((∀ k, k < n + 4096 * count → Mapped m cr3 va k) ∧
      accessMiddlePages h buff cr3 isWrite (pagesBefore stop cur) (BitVec.ofNat 64 n)
          (copied h m cr3 va buff isWrite n) =
        (true, BitVec.ofNat 64 (n + 4096 * count),
          copied h m cr3 va buff isWrite (n + 4096 * count))) := by
  have noWrap := sep.noWrap
  induction count generalizing n cur with
  | zero =>
      right
      have none : pagesBefore stop cur = [] := by
        have zero : (stop.toNat - cur.toNat + 0xfff) / 0x1000 = 0 := by omega
        rw [pagesBefore, zero, List.range_zero, List.map_nil]
      rw [none]
      exact ⟨mapped, rfl⟩
  | succ count ih =>
      have page : (0x1000 : BitVec 64).toNat = 4096 := by decide
      have next : (cur + 0x1000).toNat = cur.toNat + 4096 := by
        rw [BitVec.toNat_add, page]
        omega
      have at_n : cur.toNat = (va.toNat + n) / 4096 * 4096 := by omega
      obtain ⟨kept, found⟩ := sep.lookup at_n (by omega) mapped
      rw [Monitor.pagesBefore_eq (by omega), if_pos (BitVec.lt_def.mpr (by omega)),
        Host.accessMiddlePages, kept]
      by_cases here : alHvMmGetPa (words m) cur cr3 = 0
      · rw [if_pos here]
        exact .inl ⟨n, _, by omega, mapped, fun yes => found.mpr yes here, rfl⟩
      · obtain ⟨mapped', done⟩ := sep.access_aligned 0x1000 first aligned (by omega)
          page.le here mapped
        rw [page] at mapped' done
        have rest := ih (by rw [next, first, Nat.add_assoc]) (by omega) (by omega) (by omega) mapped'
        simp only [if_neg here, done, Bool.true_eq_false, if_false]
        rw [show BitVec.ofNat 64 n + 0x1000 = BitVec.ofNat 64 (n + 4096) from
            (BitVec.ofNat_add _ _).symm]
        rwa [show n + 4096 + 4096 * count = n + 4096 * (count + 1) by omega] at rest

theorem Separate.onePage (some : 0 < size.toNat) (fits : va.toNat % 4096 + size.toNat ≤ 4096) :
    Bytewise h m cr3 va buff isWrite size
      (let pa := alHvMmGetPa (words m) (va &&& ~~~0xfff) cr3
      if pa = 0 then (false, m)
      else alHvMmAccessPhysicalMemory h (pa + (va &&& 0xfff)) buff size isWrite m) := by
  have none : ∀ k, k < 0 → Mapped m cr3 va k := fun k hk => absurd hk (Nat.not_lt_zero k)
  have offset := toNat_offset va
  obtain ⟨-, found⟩ := sep.lookup (n := 0) (toNat_page va) some none
  by_cases here : alHvMmGetPa (words m) (va &&& ~~~0xfff) cr3 = 0
  · rw [if_pos here]
    exact .stopped 0 some none fun yes => found.mpr yes here
  · obtain ⟨mapped, done⟩ := sep.access (n := 0) size (toNat_page va) offset (by omega) (by omega) here none
    rw [Nat.zero_add] at mapped done
    rw [show buff + BitVec.ofNat 64 0 = buff from BitVec.add_zero buff] at done
    rw [if_neg here, show alHvMmAccessPhysicalMemory h _ buff size isWrite m = _ from done]
    exact .all mapped

theorem Separate.lastPage {stop64 stopOff : BitVec 64} (page : stop64.toNat = va.toNat + n)
    (aligned : (va.toNat + n) % 4096 = 0) (offset : n + stopOff.toNat = size.toNat)
    (short : stopOff.toNat < 4096) (mapped : ∀ k, k < n → Mapped m cr3 va k) :
    Bytewise h m cr3 va buff isWrite size
      (if 0 < stopOff then
        let lastPa := alHvMmGetPa (words (copied h m cr3 va buff isWrite n)) stop64 cr3
        if lastPa = 0 then (false, copied h m cr3 va buff isWrite n)
        else
          let (ret, m) := alHvMmAccessPhysicalMemory h lastPa (buff + BitVec.ofNat 64 n) stopOff isWrite
            (copied h m cr3 va buff isWrite n)
          if ret = false then (false, m) else (true, m)
      else (true, copied h m cr3 va buff isWrite n)) := by
  have positive : 0 < stopOff ↔ 0 < stopOff.toNat := BitVec.lt_def
  by_cases more : 0 < stopOff
  · have some := positive.mp more
    obtain ⟨kept, found⟩ := sep.lookup (page.trans (by omega)) (by omega) mapped
    rw [if_pos more, kept]
    by_cases here : alHvMmGetPa (words m) stop64 cr3 = 0
    · rw [if_pos here]
      exact .stopped n (by omega) mapped fun yes => found.mpr yes here
    · obtain ⟨mapped', done⟩ := sep.access_aligned stopOff page aligned (by omega) (by omega) here mapped
      rw [offset] at mapped' done
      simp only [if_neg here, done, Bool.true_eq_false, if_false]
      exact .all mapped'
  · obtain rfl : n = size.toNat := by
      have zero := mt positive.mpr more
      omega
    rw [if_neg more]
    exact .all mapped

theorem Separate.bytewise :
    Bytewise h m cr3 va buff isWrite size (alHvMmAccessMemoryFromPm h buff cr3 isWrite va size m) := by
  have noWrap := sep.noWrap
  have vaOff := toNat_offset va
  have va64 := toNat_page va
  have page : (0x1000 : BitVec 64).toNat = 4096 := by decide
  have stop : (va + size).toNat = va.toNat + size.toNat := by
    rw [BitVec.toNat_add, Nat.mod_eq_of_lt noWrap]
  have stopOff := toNat_offset (va + size)
  have stop64 := toNat_page (va + size)
  rw [stop] at stopOff stop64
  have sum : ((va &&& 0xfff) + size).toNat = va.toNat % 4096 + size.toNat := by
    rw [BitVec.toNat_add, vaOff, Nat.mod_eq_of_lt (by omega)]
  have single : (va &&& 0xfff) + size ≤ 0x1000 ↔ va.toNat % 4096 + size.toNat ≤ 4096 := by
    rw [BitVec.le_def, sum, page]
  have none : ∀ k, k < 0 → Mapped m cr3 va k := fun k hk => absurd hk (Nat.not_lt_zero k)
  rw [alHvMmAccessMemoryFromPm]
  by_cases empty : size = 0
  · have zero : size.toNat = 0 := by
      rw [empty]
      rfl
    have done : Bytewise h m cr3 va buff isWrite size (true, copied h m cr3 va buff isWrite size.toNat) :=
      .all fun k hk => absurd hk (by omega)
    rw [zero] at done
    rw [if_pos empty]
    exact done
  have some : 0 < size.toNat := by
    rw [Nat.pos_iff_ne_zero]
    exact fun zero => empty (BitVec.eq_of_toNat_eq zero)
  rw [if_neg empty]
  by_cases one : (va &&& 0xfff) + size ≤ 0x1000
  · simp only [if_pos one]
    exact sep.onePage some (single.mp one)
  have many := mt single.mpr one
  simp only [if_neg one]
  obtain ⟨-, found⟩ := sep.lookup (n := 0) va64 some none
  by_cases here : alHvMmGetPa (words m) (va &&& ~~~0xfff) cr3 = 0
  · rw [if_pos here]
    exact .stopped 0 some none fun yes => found.mpr yes here
  have firstSize : (0x1000 - (va &&& 0xfff)).toNat = 4096 - va.toNat % 4096 := by
    rw [BitVec.toNat_sub, vaOff, page]
    omega
  obtain ⟨mapped, first⟩ := sep.access (n := 0) (0x1000 - (va &&& 0xfff)) va64 vaOff (by omega)
    (by omega) here none
  rw [Nat.zero_add] at mapped first
  rw [show buff + BitVec.ofNat 64 0 = buff from BitVec.add_zero buff,
    show copied h m cr3 va buff isWrite 0 = m from rfl] at first
  simp only [if_neg here, first, Bool.true_eq_false, if_false]
  have offset : BitVec.ofNat 64 (0x1000 - (va &&& 0xfff)).toNat = 0x1000 - (va &&& 0xfff) := by
    rw [BitVec.ofNat_toNat, BitVec.setWidth_eq]
  have second : ((va &&& ~~~0xfff) + 0x1000).toNat = va.toNat + (0x1000 - (va &&& 0xfff)).toNat := by
    rw [BitVec.toNat_add, va64, page, firstSize, Nat.mod_eq_of_lt (by omega)]
    omega
  rcases sep.accessMiddlePages ((va + size) &&& ~~~0xfff)
    ((va.toNat + size.toNat) / 4096 - va.toNat / 4096 - 1) second (by omega) (by omega) (by omega)
    mapped with ⟨n', off, inside, mapped', missing, done⟩ | ⟨mapped', done⟩
  · rw [offset] at done
    simp only [done, if_true]
    exact .stopped n' inside mapped' missing
  · rw [offset] at done
    simp only [done, Bool.true_eq_false, if_false]
    exact sep.lastPage (by omega) (by omega) (by omega) (by omega) mapped'

end Chunks

section Results
variable {h : HostSpace} {m m' : ByteMemory} {cr3 va buff size : BitVec 64} {isWrite : Bool}

/-- Different bytes of the range stand in different places. -/
def Once (place : Nat → BitVec 64) (size : BitVec 64) : Prop :=
  ∀ i k, i < size.toNat → k < size.toNat → place i = place k → i = k

/-- The pages of the range are mapped to different frames. -/
def DistinctFrames (m : ByteMemory) (cr3 va size : BitVec 64) : Prop :=
  ∀ i k, i < size.toNat → k < size.toNat → pageAt va i ≠ pageAt va k →
    alHvMmGetPa (words m) (pageAt va i) cr3 ≠ alHvMmGetPa (words m) (pageAt va k) cr3

theorem Bytewise.true_iff {r : Bool × ByteMemory} (b : Bytewise h m cr3 va buff isWrite size r) :
    r.1 = true ↔ ∀ k, k < size.toNat → Mapped m cr3 va k := by
  cases b with
  | all mapped => exact iff_of_true rfl mapped
  | stopped n inside mapped missing => exact iff_of_false nofun fun whole => missing (whole n inside)

theorem Bytewise.frame {r : Bool × ByteMemory} (b : Bytewise h m cr3 va buff isWrite size r)
    {x : BitVec 64} (outside : ∀ k, k < size.toNat → x ≠ desByte h m cr3 va buff isWrite k) :
    r.2 x = m x := by
  cases b with
  | all mapped => exact ByteCopy.copy_frame outside
  | stopped n inside mapped missing =>
      exact ByteCopy.copy_frame fun k hk => outside k (Nat.lt_trans hk inside)

theorem Separate.apart_bytes (sep : Separate h m cr3 va buff isWrite size)
    (mapped : ∀ k, k < size.toNat → Mapped m cr3 va k) :
    Apart (desByte h m cr3 va buff isWrite) (souByte h m cr3 va buff isWrite) size.toNat := by
  intro i k hi hk
  cases isWrite with
  | true => exact (sep.apart k i hk hi (mapped i hi)).symm
  | false => exact sep.apart i k hi hk (mapped k hk)

theorem Bytewise.bytes {r : Bool × ByteMemory} (b : Bytewise h m cr3 va buff isWrite size r)
    (sep : Separate h m cr3 va buff isWrite size) (done : r.1 = true)
    (once : Once (desByte h m cr3 va buff isWrite) size) {k : Nat} (hk : k < size.toNat) :
    r.2 (desByte h m cr3 va buff isWrite k) = m (souByte h m cr3 va buff isWrite k) := by
  cases b with
  | all mapped =>
      exact ByteCopy.copy_at (sep.apart_bytes mapped) hk fun i hi same => once i k hi hk same
  | stopped n inside mapped missing => cases done

theorem toNat_getPa_page (u : Memory) (cr3 va : BitVec 64) (k : Nat) :
    (alHvMmGetPa u (pageAt va k) cr3).toNat % 4096 = 0 := by
  have aligned : (pageAt va k).toNat % 4096 = 0 := by
    rw [pageAt, toNat_page]
    omega
  have mb : (pageAt va k &&& 0x1fffff).toNat = (pageAt va k).toNat % 2^21 :=
    BitField.toNat_and_low (by decide)
  rw [alHvMmGetPa]
  split
  · rfl
  split
  · rw [BitVec.toNat_add, BitVec.toNat_shiftLeft, Nat.shiftLeft_eq, mb]
    omega
  simp only
  split
  · rfl
  · rw [BitVec.toNat_add, BitVec.toNat_shiftLeft, Nat.shiftLeft_eq, toNat_offset]
    omega

theorem physicalByte_once (noWrap : va.toNat + size.toNat < 2^64)
    (distinct : DistinctFrames m cr3 va size) : Once (physicalByte m cr3 va) size := by
  intro i k hi hk same
  have atI := toNat_getPa_page (words m) cr3 va i
  have atK := toNat_getPa_page (words m) cr3 va k
  have offI := toNat_offset (va + BitVec.ofNat 64 i)
  have offK := toNat_offset (va + BitVec.ofNat 64 k)
  rw [toNat_add_ofNat (by omega)] at offI offK
  have sums := congrArg BitVec.toNat same
  rw [physicalByte, physicalByte, BitVec.toNat_add, BitVec.toNat_add, offI, offK] at sums
  have frames : alHvMmGetPa (words m) (pageAt va i) cr3 = alHvMmGetPa (words m) (pageAt va k) cr3 := by
    apply BitVec.eq_of_toNat_eq
    omega
  have pages : pageAt va i = pageAt va k := by
    by_contra other
    exact distinct i k hi hk other frames
  have places := congrArg BitVec.toNat pages
  rw [toNat_pageAt (by omega), toNat_pageAt (by omega)] at places
  rw [frames] at sums
  omega

/-- A read copies the bytes that ALhvMMgetPA leads to into the buffer, and a write copies the buffer
there. -/
theorem accessMemoryFromPm_bytewise (h : HostSpace) (cr3 va size : BitVec 64) :
    (∀ buff m, Separate h m cr3 va buff false size → Once (h.byte buff) size →
      ((alHvMmReadVaFromPm h buff cr3 va size m).1 = true ↔
        ∀ k, k < size.toNat → Mapped m cr3 va k) ∧
      ((alHvMmReadVaFromPm h buff cr3 va size m).1 = true → ∀ k, k < size.toNat →
        (alHvMmReadVaFromPm h buff cr3 va size m).2 (h.byte buff k) = m (physicalByte m cr3 va k)) ∧
      ∀ x, (∀ k, k < size.toNat → x ≠ h.byte buff k) →
        (alHvMmReadVaFromPm h buff cr3 va size m).2 x = m x) ∧
    (∀ buff m m', Separate h m cr3 va buff true size →
      alHvMmWriteVaFromPm h buff cr3 va size m = (true, m') →
      (∀ x, (∀ k, k < size.toNat → x ≠ physicalByte m cr3 va k) → m' x = m x) ∧
      (DistinctFrames m cr3 va size → ∀ buff', Separate h m' cr3 va buff' false size →
        Once (h.byte buff') size →
        (alHvMmReadVaFromPm h buff' cr3 va size m').1 = true ∧ ∀ k, k < size.toNat →
          (alHvMmReadVaFromPm h buff' cr3 va size m').2 (h.byte buff' k) = m (h.byte buff k))) := by
  refine ⟨fun buff m sep once => ?_, fun buff m m' sep done => ?_⟩
  · exact ⟨sep.bytewise.true_iff, fun done k hk => sep.bytewise.bytes sep done once hk,
      fun x outside => sep.bytewise.frame outside⟩
  have wrote := sep.bytewise
  rw [show alHvMmAccessMemoryFromPm h buff cr3 true va size m = (true, m') from done] at wrote
  have mapped := wrote.true_iff.mp rfl
  refine ⟨fun x outside => wrote.frame outside, fun distinct buff' sep' once => ?_⟩
  have kept : ∀ k, k < size.toNat →
      alHvMmGetPa (words m') (pageAt va k) cr3 = alHvMmGetPa (words m) (pageAt va k) cr3 := by
    intro k hk
    cases wrote with
    | all _ => exact sep.getPa_kept (Nat.le_refl _) mapped hk
  have read := sep'.bytewise
  have found : ∀ k, k < size.toNat → Mapped m' cr3 va k := by
    intro k hk
    rw [Mapped, kept k hk]
    exact mapped k hk
  refine ⟨read.true_iff.mpr found, fun k hk => ?_⟩
  have back := read.bytes sep' (read.true_iff.mpr found) once hk
  have same : physicalByte m' cr3 va k = physicalByte m cr3 va k := by
    rw [physicalByte, kept k hk, physicalByte]
  calc (alHvMmReadVaFromPm h buff' cr3 va size m').2 (h.byte buff' k)
      = m' (physicalByte m' cr3 va k) := back
    _ = m' (physicalByte m cr3 va k) := by rw [same]
    _ = m (h.byte buff k) := wrote.bytes sep rfl (physicalByte_once sep.noWrap distinct) hk

/-- Physical memory at the start of the window, and nothing else. -/
def plainSpace : HostSpace where
  memBase := 0xffff800000000000
  translate va := va - 0xffff800000000000
  mapped := by decide
  window pa _ := by rw [BitVec.add_comm, BitVec.add_sub_cancel]

/-- Four tables in the frames 1 to 4 map the pages 0 and 0x1000 to the frames 8 and 9. A buffer at
0x20000 holds 0xaa and 0xbb. -/
def mappedBytes (pa : BitVec 64) : BitVec 8 :=
  if pa ∈ [0x1000, 0x2000, 0x3000, 0x4000, 0x4008] then 3
  else if pa = 0x1001 then 0x20
  else if pa = 0x2001 then 0x30
  else if pa = 0x3001 then 0x40
  else if pa = 0x4001 then 0x80
  else if pa = 0x4009 then 0x90
  else if pa = 0x20000 then 0xaa
  else if pa = 0x20001 then 0xbb
  else 0

/-- The memory after these two bytes have been written to 0xfff. -/
def writtenBytes : ByteMemory :=
  (alHvMmWriteVaFromPm plainSpace 0xffff800000020000 0x1000 0xfff 2 mappedBytes).2

/-- The bound of `Separate` on what is written, as a check of finitely many bytes. -/
theorem tables_of_all {h : HostSpace} {m : ByteMemory} {cr3 va buff : BitVec 64} {isWrite : Bool}
    {n : Nat} (checked : ((List.range n).all fun i => (List.range n).all fun k =>
      (lookups (words m) (addressOfPageDirectory cr3) (pageAt va k)).all fun r =>
        (List.range 8).all fun b => wordByte r.1 r.2 b != desByte h m cr3 va buff isWrite i) = true) :
    ∀ i, i < n → ∀ k, k < n →
      ∀ r ∈ lookups (words m) (addressOfPageDirectory cr3) (pageAt va k), ∀ b, b < 8 →
        wordByte r.1 r.2 b ≠ desByte h m cr3 va buff isWrite i := by
  simpa only [List.all_eq_true, List.mem_range, bne_iff_ne] using checked

theorem mappedBytes_separate :
    Separate plainSpace mappedBytes 0x1000 0xfff 0xffff800000020000 true 2 where
  noWrap := by decide
  window := by decide +kernel
  apart i k hi hk := (by decide +kernel : ∀ i, i < 2 → ∀ k, k < 2 → Mapped mappedBytes 0x1000 0xfff k →
    plainSpace.byte 0xffff800000020000 i ≠ physicalByte mappedBytes 0x1000 0xfff k) i hi k hk
  tables i hi _ k hk := tables_of_all (n := 2) (by decide +kernel) i hi k hk

theorem writtenBytes_separate :
    Separate plainSpace writtenBytes 0x1000 0xfff 0xffff800000010000 false 2 where
  noWrap := by decide
  window := by decide +kernel
  apart i k hi hk := (by decide +kernel : ∀ i, i < 2 → ∀ k, k < 2 → Mapped writtenBytes 0x1000 0xfff k →
    plainSpace.byte 0xffff800000010000 i ≠ physicalByte writtenBytes 0x1000 0xfff k) i hi k hk
  tables i hi _ k hk := tables_of_all (n := 2) (by decide +kernel) i hi k hk

theorem writtenBytes_once : Once (plainSpace.byte 0xffff800000010000) 2 :=
  fun i k hi hk => (by decide +kernel : ∀ i, i < 2 → ∀ k, k < 2 →
    plainSpace.byte 0xffff800000010000 i = plainSpace.byte 0xffff800000010000 k → i = k) i hi k hk

theorem mappedBytes_distinct : DistinctFrames mappedBytes 0x1000 0xfff 2 :=
  fun i k hi hk => (by decide +kernel : ∀ i, i < 2 → ∀ k, k < 2 → pageAt 0xfff i ≠ pageAt 0xfff k →
    alHvMmGetPa (words mappedBytes) (pageAt 0xfff i) 0x1000 ≠
      alHvMmGetPa (words mappedBytes) (pageAt 0xfff k) 0x1000) i hi k hk

theorem accessMemoryFromPm_bytewise_two_pages :
    (alHvMmReadVaFromPm plainSpace 0xffff800000010000 0x1000 0xfff 2 writtenBytes).1 = true ∧
      (alHvMmReadVaFromPm plainSpace 0xffff800000010000 0x1000 0xfff 2 writtenBytes).2 0x10001 = 0xbb := by
  obtain ⟨reads, writes⟩ := accessMemoryFromPm_bytewise plainSpace 0x1000 0xfff 2
  have wrote : alHvMmWriteVaFromPm plainSpace 0xffff800000020000 0x1000 0xfff 2 mappedBytes =
      (true, writtenBytes) := Prod.ext (by decide +kernel) rfl
  have back := (writes _ _ _ mappedBytes_separate wrote).2 mappedBytes_distinct _ writtenBytes_separate
    writtenBytes_once
  exact ⟨(reads _ _ writtenBytes_separate writtenBytes_once).1.mpr (by decide +kernel),
    back.2 1 (by decide)⟩

end Results

end LMalz.Host
