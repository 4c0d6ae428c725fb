import LMalz.Ept.IdentityMap
import LMalz.Host.PageTables

/- The window of the host on physical memory, in the upper half of its own tables: ALhvMMsetAllPA
and ALhvMMprepare_fake_page_tables of hvmem.cpp. -/
namespace LMalz.Host
open Ept (Platform Outcome allocatePage Fresh poolPages setFlag setLargePage setPageFrameNumber
  setPageFrameNumber2mb Entry Frame Index flag largePage pageFrameNumber pageFrameNumber2mb
  pml4Index pdptIndex pdIndex ptIndex Below512G)
open Function (update)

/-- The tables of the machine, and hvMMpMemBase. -/
structure State where
  machine : Ept.Machine
  memBase : BitVec 64

/-- A pml4e or pdpte of the window: present, write and page_frame_number. -/
def windowEntry (page : Frame) : Entry :=
  setPageFrameNumber (setFlag (setFlag 0 0 true) 1 true) page

/-- Entry `j` of page directory `i` of the window. -/
def windowPde (i j : Index) : Entry :=
  setPageFrameNumber2mb (setLargePage (setFlag (setFlag 0 0 true) 1 true) true)
    (((i.setWidth 64 <<< 9) + j.setWidth 64).setWidth 27)

/-- The OR_ADDRESS with pml4_index `z` and reserved 0xffff. -/
def windowBase (z : Index) : BitVec 64 := BitField.set (BitField.set 0 39 z) 48 (0xffff : BitVec 16)

/-- The indices of the loops `for (z = 256; z < 512; z++)` and `for (i = 0; i < 64; ++i)`. -/
def upperHalf : List Index := (List.range' 256 256).map (BitVec.ofNat 9)
def gigabytes : List Index := (List.range 64).map (BitVec.ofNat 9)

section Building
variable (P : Platform)

/-- The loop of ALhvMMsetAllPA over the page directories. -/
def setAllPaLoop (pdpt : Frame) : List Index → Ept.Machine → Outcome Ept.Machine
  | [], s => .ok s
  | i :: is, s => do
      let (pd, s) ← allocatePage P s
      setAllPaLoop pdpt is ((s.store pdpt i (windowEntry pd)).fill pd (windowPde i))

def alHvMmSetAllPa (pageTable : Frame) (s : State) : Outcome (Bool × State) :=
  match upperHalf.find? fun z => s.machine.mem pageTable z = 0 with
  | none => .ok (false, s)
  | some z => do
      let (pdpt, machine) ← allocatePage P s.machine
      let machine ← setAllPaLoop P pdpt gigabytes (machine.store pageTable z (windowEntry pdpt))
      return (true, ⟨machine, windowBase z⟩)

/-- ALhvMMprepare_fake_page_tables; the result is `*fake_table`, none when it returns 0. `known`
says of which pages ALhvMMgetVA finds an address. -/
def alHvMmPrepareFakePageTables (known : Frame → Bool) (realCr3 : BitVec 64) (s : State) :
    Outcome (Option Frame × State) := do
  let (hostPml4, machine) ← allocatePage P s.machine
  let s : State := { s with machine }
  let pt := addressOfPageDirectory realCr3
  if known pt = false then return (none, s)
  let machine := s.machine.fill hostPml4 fun a =>
    if 256 ≤ a.toNat then s.machine.mem pt a else s.machine.mem hostPml4 a
  let (ret, s) ← alHvMmSetAllPa P hostPml4 { s with machine }
  if ret = false then return (none, s)
  if hostPml4 = 0 then return (none, s)
  return (some hostPml4, s)

end Building

/-- ALhvMMgetVA in host mode. -/
def alHvMmGetVa (s : State) (pa : BitVec 64) : BitVec 64 := s.memBase + pa

section Entries
variable (q : Frame) (i j : Index)

@[simp] theorem present_windowEntry : present (windowEntry q) = true := by
  simp (disch := omega) only [present, windowEntry, setPageFrameNumber, Ept.flag_set_apart,
    Ept.flag_setFlag_apart, Ept.flag_setFlag]

@[simp] theorem write_windowEntry : write (windowEntry q) = true := by
  simp (disch := omega) only [write, windowEntry, setPageFrameNumber, Ept.flag_set_apart,
    Ept.flag_setFlag]

@[simp] theorem largePage_windowEntry : largePage (windowEntry q) = false := by
  rw [windowEntry, Ept.largePage_setPageFrameNumber]
  rfl

@[simp] theorem pageFrameNumber_windowEntry : pageFrameNumber (windowEntry q) = q :=
  Ept.pageFrameNumber_setPageFrameNumber _ _

@[simp] theorem present_windowPde : present (windowPde i j) = true := by
  simp (disch := omega) only [present, windowPde, setPageFrameNumber2mb, setLargePage,
    Ept.flag_set_apart, Ept.flag_setFlag_apart, Ept.flag_setFlag]

@[simp] theorem write_windowPde : write (windowPde i j) = true := by
  simp (disch := omega) only [write, windowPde, setPageFrameNumber2mb, setLargePage,
    Ept.flag_set_apart, Ept.flag_setFlag_apart, Ept.flag_setFlag]

@[simp] theorem largePage_windowPde : largePage (windowPde i j) = true := by
  rw [windowPde, Ept.largePage_setPageFrameNumber2mb, Ept.largePage_setLargePage]

theorem toNat_windowPde_frame :
    (pageFrameNumber2mb (windowPde i j)).toNat = i.toNat * 512 + j.toNat := by
  have hi := i.isLt
  have hj := j.isLt
  rw [windowPde, Ept.pageFrameNumber2mb_setPageFrameNumber2mb]
  simp only [BitVec.toNat_setWidth, BitVec.toNat_add, BitVec.toNat_shiftLeft, Nat.shiftLeft_eq]
  omega

end Entries

section Addresses
variable {z : Index} {pa : BitVec 64}

theorem toNat_windowBase (z : Index) : (windowBase z).toNat = 0xffff * 2^48 + z.toNat * 2^39 := by
  have bound := z.isLt
  have index : (BitField.set (0 : BitVec 64) 39 z).toNat = z.toNat * 2^39 + 0 :=
    BitField.toNat_set_above z (by decide) (by omega)
  rw [windowBase, BitField.toNat_set_above _ (by omega) (by omega), index, Nat.add_zero,
    BitVec.ofNat_eq_ofNat, BitVec.toNat_ofNat]

theorem window_indices (low : Below512G pa) :
    pml4Index (windowBase z + pa) = z ∧ pdptIndex (windowBase z + pa) = pdptIndex pa ∧
      pdIndex (windowBase z + pa) = pdIndex pa ∧
      (BitField.get (windowBase z + pa) 0 21 : BitVec 21) = BitField.get pa 0 21 := by
  have below : pa.toNat < 2^39 := low
  have zBound := z.isLt
  have sum : (windowBase z + pa).toNat = 0xffff * 2^48 + z.toNat * 2^39 + pa.toNat := by
    rw [BitVec.toNat_add, toNat_windowBase]
    exact Nat.mod_eq_of_lt (by omega)
  refine ⟨?_, ?_, ?_, ?_⟩ <;> apply BitVec.eq_of_toNat_eq
  all_goals
    simp only [pml4Index, pdptIndex, pdIndex, BitField.toNat_get, sum]
    omega

end Addresses

/-- The window with `n` of its page directories. The tables stand in the pool pages from `k` on;
`copy` is what was in the pml4 before, `start` the machine before the call. -/
structure Window (P : Platform) (k : Nat) (z : Index) (copy : Index → Entry) (start : Ept.Machine)
    (n : Nat) (s : Ept.Machine) : Prop where
  bound : k + 2 + n ≤ poolPages
  usable : s.limits.poolUsable = 0x1000 * (k + 2 + n : Nat)
  memEnd : s.limits.poolBigMemEnd = start.limits.poolBigMemEnd
  top : Pool.InPool s.limits.poolBigMemEnd
  pml4 : s.mem (P.page k) = update copy z (windowEntry (P.page (k + 1)))
  pdpt : s.mem (P.page (k + 1)) = fun a =>
    if a.toNat < n then windowEntry (P.page (k + 2 + a.toNat)) else 0
  pd : ∀ q, q < n → s.mem (P.page (k + 2 + q)) = windowPde (BitVec.ofNat 9 q)
  zero : ∀ i, k + 2 + n ≤ i → i < poolPages → ∀ a, s.mem (P.page i) a = 0
  others : ∀ f, (∀ i, k ≤ i → i < poolPages → f ≠ P.page i) → s.mem f = start.mem f

/-- The pdpt of a window with `n` of its page directories, in the pool pages from `k` on; `start`
is the machine before the loop. -/
structure Directories (P : Platform) (k : Nat) (start : Ept.Machine) (n : Nat) (s : Ept.Machine) :
    Prop where
  bound : k + 1 + n ≤ poolPages
  usable : s.limits.poolUsable = 0x1000 * (k + 1 + n : Nat)
  memEnd : s.limits.poolBigMemEnd = start.limits.poolBigMemEnd
  top : Pool.InPool s.limits.poolBigMemEnd
  pdpt : s.mem (P.page k) = fun a =>
    if a.toNat < n then windowEntry (P.page (k + 1 + a.toNat)) else 0
  pd : ∀ q, q < n → s.mem (P.page (k + 1 + q)) = windowPde (BitVec.ofNat 9 q)
  zero : ∀ i, k + 1 + n ≤ i → i < poolPages → ∀ a, s.mem (P.page i) a = 0
  others : ∀ f, (∀ i, k ≤ i → i < poolPages → f ≠ P.page i) → s.mem f = start.mem f

section Window
variable {P : Platform} {k n : Nat} {z : Index} {copy : Index → Entry} {start s t : Ept.Machine}

/-- One turn of the loop. -/
theorem Directories.turn (d : Directories P k start n s) (short : n < 64)
    (room : k + 1 + n < poolPages) :
    Directories P k start (n + 1)
      (((s.withPages (k + 1 + n + 1)).store (P.page k) (BitVec.ofNat 9 n)
        (windowEntry (P.page (k + 1 + n)))).fill (P.page (k + 1 + n))
        (windowPde (BitVec.ofNat 9 n))) := by
  generalize ht : Ept.Machine.fill _ _ _ = t
  have mem : t.mem = update (update s.mem (P.page k) (update (s.mem (P.page k))
      (BitVec.ofNat 9 n) (windowEntry (P.page (k + 1 + n))))) (P.page (k + 1 + n))
        (windowPde (BitVec.ofNat 9 n)) := by
    rw [← ht]
    rfl
  have kept : ∀ f, f ≠ P.page k → f ≠ P.page (k + 1 + n) → t.mem f = s.mem f := by
    intro f notPdpt notPd
    rw [mem, Function.update_of_ne notPd, Function.update_of_ne notPdpt]
  refine ⟨room, ?_, ?_, ?_, ?_, ?_, ?_, ?_⟩
  · rw [← ht]
    rfl
  · rw [← d.memEnd, ← ht]
    rfl
  · rw [← ht]
    exact d.top
  · rw [mem, Function.update_of_ne (P.page_ne (by omega) room (by omega)), Function.update_self,
      d.pdpt]
    funext a
    have index : (BitVec.ofNat 9 n).toNat = n := by
      rw [BitVec.toNat_ofNat]
      omega
    by_cases here : a = BitVec.ofNat 9 n
    · subst here
      rw [Function.update_self, index, if_pos (by omega)]
    · have other : a.toNat ≠ n := fun same => here (BitVec.eq_of_toNat_eq (same.trans index.symm))
      rw [Function.update_of_ne here]
      by_cases before : a.toNat < n
      · rw [if_pos before, if_pos (by omega)]
      · rw [if_neg before, if_neg (by omega)]
  · intro q hq
    by_cases last : q = n
    · subst last
      rw [mem, Function.update_self]
    · rw [kept _ (P.page_ne (by omega) (by omega) (by omega)) (P.page_ne (by omega) room (by omega))]
      exact d.pd q (by omega)
  · intro i hi inside a
    rw [kept _ (P.page_ne inside (by omega) (by omega)) (P.page_ne inside room (by omega))]
    exact d.zero i (by omega) inside a
  · intro f outside
    rw [kept f (outside k (Nat.le_refl k) (by omega)) (outside (k + 1 + n) (by omega) room)]
    exact d.others f outside

theorem Directories.setAllPaLoop (count : Nat) (d : Directories P k start n s)
    (short : n + count ≤ 64) :
    Ept.Died (setAllPaLoop P (P.page k) ((List.range' n count).map (BitVec.ofNat 9)) s)
        start (k + 1 + n + count) ∨
      ∃ t, setAllPaLoop P (P.page k) ((List.range' n count).map (BitVec.ofNat 9)) s = .ok t ∧
        Directories P k start (n + count) t := by
  induction count generalizing n s with
  | zero => exact .inr ⟨s, rfl, d⟩
  | succ count ih =>
      rw [List.range'_succ, List.map_cons, Host.setAllPaLoop]
      rcases Ept.allocatePage_cases (P := P) d.usable d.top d.bound with died | ⟨room, took⟩
      · exact .inl ((died.mono (by omega) d.memEnd).bind _)
      · rw [took, Outcome.ok_bind]
        have next := ih (d.turn (by omega) room) (by omega)
        rwa [show k + 1 + (n + 1) + count = k + 1 + n + (count + 1) by omega,
          show n + 1 + count = n + (count + 1) by omega] at next

theorem Directories.walk (d : Directories P k start 64 s) {root : Frame} {pa : BitVec 64}
    (pml4 : s.mem root z = windowEntry (P.page k)) (low : Below512G pa) :
    walk s.mem root (windowBase z + pa) =
      if pa.toNat < 2^36 then some ⟨pa, true⟩ else none := by
  obtain ⟨top, pdpt, pd, offset⟩ := window_indices (z := z) low
  have below : pa.toNat < 2^39 := low
  have gb : (pdptIndex pa).toNat = pa.toNat / 2^30 := by
    rw [pdptIndex, BitField.toNat_get]
    omega
  have mb : (pdIndex pa).toNat = pa.toNat / 2^21 % 512 := BitField.toNat_get _ _ _
  simp only [Host.walk, top, pdpt, pd, offset, pml4, present_windowEntry,
    pageFrameNumber_windowEntry, d.pdpt, gb]
  by_cases inside : pa.toNat / 2^30 < 64
  · have same : BitVec.ofNat 9 (pa.toNat / 2^30) = pdptIndex pa := by
      rw [← gb, BitVec.ofNat_toNat, BitVec.setWidth_eq]
    have whole : inPage (pageFrameNumber2mb (windowPde (pdptIndex pa) (pdIndex pa)))
        (BitField.get pa 0 21 : BitVec 21) = pa := by
      apply BitVec.eq_of_toNat_eq
      rw [toNat_inPage _ _ (by omega), toNat_windowPde_frame, gb, mb, BitField.toNat_get]
      omega
    simp only [if_pos inside, present_windowEntry, pageFrameNumber_windowEntry, d.pd _ inside, same,
      present_windowPde, largePage_windowPde, largePage_windowEntry, write_windowEntry,
      write_windowPde, whole, Bool.true_eq_false, Bool.false_eq_true, if_false, if_true, Bool.and_self]
    rw [if_pos (by omega)]
  · simp only [if_neg inside, Bool.true_eq_false, if_false]
    rw [if_pos (show present (0 : Entry) = false from rfl), if_neg (by omega)]

/-- ALhvMMsetAllPA writes the first free slot of the upper half and the fresh pages from `k` on. -/
theorem alHvMmSetAllPa_adds {s : State} {pageTable : Frame} (fresh : Fresh P s.machine k)
    (apart : ∀ i, k ≤ i → i < poolPages → pageTable ≠ P.page i)
    (first : upperHalf.find? (fun z => s.machine.mem pageTable z = 0) = some z) :
    Ept.Died (alHvMmSetAllPa P pageTable s) s.machine (k + 65) ∨
      ∃ start t, alHvMmSetAllPa P pageTable s = .ok (true, ⟨t, windowBase z⟩) ∧
        Directories P k start 64 t ∧
        start.limits.poolBigMemEnd = s.machine.limits.poolBigMemEnd ∧
        t.mem pageTable = update (s.machine.mem pageTable) z (windowEntry (P.page k)) ∧
        ∀ f, f ≠ pageTable → (∀ i, k ≤ i → i < poolPages → f ≠ P.page i) →
          t.mem f = s.machine.mem f := by
  rw [alHvMmSetAllPa, first]
  rcases Ept.allocatePage_cases (P := P) fresh.usable fresh.top fresh.bound with died | ⟨room, took⟩
  · exact .inl ((died.mono (by omega) rfl).bind _)
  simp only [took, Outcome.ok_bind]
  generalize hw : Ept.Machine.store _ _ _ _ = w
  have kept : ∀ f, f ≠ pageTable → w.mem f = s.machine.mem f := by
    intro f ne
    rw [← hw]
    exact Function.update_of_ne ne _ _
  have opened : Directories P k w 0 w := by
    refine ⟨room, ?_, rfl, ?_, ?_, fun q hq => by omega, ?_, fun _ _ => rfl⟩
    · rw [← hw]
      rfl
    · rw [← hw]
      exact fresh.top
    · rw [kept _ (apart k (Nat.le_refl k) room).symm]
      funext a
      rw [fresh.zero k (Nat.le_refl k) room a, if_neg (Nat.not_lt_zero _)]
    · intro i hi inside a
      rw [kept _ (apart i (by omega) inside).symm]
      exact fresh.zero i (by omega) inside a
  have memEnd : w.limits.poolBigMemEnd = s.machine.limits.poolBigMemEnd := by
    rw [← hw]
    rfl
  rcases opened.setAllPaLoop 64 (Nat.le_refl 64) with died | ⟨t, done, whole⟩
  · left
    rw [gigabytes, List.range_eq_range']
    exact (died.mono (by omega) memEnd).bind _
  · right
    rw [gigabytes, List.range_eq_range', done]
    refine ⟨w, t, rfl, whole, memEnd, ?_, fun f other outside => ?_⟩
    · rw [whole.others pageTable apart, ← hw]
      exact Function.update_self _ _ _
    · rw [whole.others f outside, kept f other]

/-- The upper half of a pml4, as memcpy leaves it in a page of zeros. -/
def upperCopy (page : Index → Entry) (a : Index) : Entry := if 256 ≤ a.toNat then page a else 0

/-- What ALhvMMprepare_fake_page_tables leaves behind when it returns 1. -/
structure Prepared (P : Platform) (k : Nat) (pt : Frame) (s : State) (z : Index) (t : State) :
    Prop where
  window : Window P k z (upperCopy (s.machine.mem pt)) s.machine 64 t.machine
  memBase : t.memBase = windowBase z
  upper : 256 ≤ z.toNat
  unused : s.machine.mem pt z = 0

theorem toNat_mem_upperHalf (mem : z ∈ upperHalf) : 256 ≤ z.toNat := by
  obtain ⟨n, inside, rfl⟩ := List.mem_map.mp mem
  obtain ⟨low, high⟩ := List.mem_range'_1.mp inside
  rw [BitVec.toNat_ofNat]
  omega

theorem upperCopy_pool {s : Ept.Machine} (fresh : Fresh P s k) (room : k < poolPages) (pt : Frame) :
    (fun a : Index => if 256 ≤ a.toNat then s.mem pt a else s.mem (P.page k) a) =
      upperCopy (s.mem pt) := by
  funext a
  rw [upperCopy, fresh.zero k (Nat.le_refl k) room a]

theorem alHvMmSetAllPa_cases (start : Ept.Machine) (s : State) {z : Index} (bound : k + 1 ≤ poolPages)
    (usable : s.machine.limits.poolUsable = 0x1000 * (k + 1 : Nat))
    (memEnd : s.machine.limits.poolBigMemEnd = start.limits.poolBigMemEnd)
    (top : Pool.InPool s.machine.limits.poolBigMemEnd) (pml4 : s.machine.mem (P.page k) = copy)
    (zero : ∀ i, k + 1 ≤ i → i < poolPages → ∀ a, s.machine.mem (P.page i) a = 0)
    (others : ∀ f, (∀ i, k ≤ i → i < poolPages → f ≠ P.page i) → s.machine.mem f = start.mem f)
    (first : upperHalf.find? (fun z => s.machine.mem (P.page k) z = 0) = some z) :
    Ept.Died (alHvMmSetAllPa P (P.page k) s) start (k + 66) ∨
      ∃ t, alHvMmSetAllPa P (P.page k) s = .ok (true, ⟨t, windowBase z⟩) ∧
        Window P k z copy start 64 t := by
  have fresh : Fresh P s.machine (k + 1) := ⟨bound, usable, top, zero⟩
  have apart : ∀ i, k + 1 ≤ i → i < poolPages → P.page k ≠ P.page i :=
    fun i hi inside => P.page_ne (by omega) inside (by omega)
  rcases alHvMmSetAllPa_adds fresh apart first with died | ⟨w, t, done, d, same, root, kept⟩
  · exact .inl (died.mono (by omega) memEnd)
  · refine .inr ⟨t, done, d.bound, d.usable, ?_, d.top, ?_, d.pdpt, d.pd, d.zero, fun f outside => ?_⟩
    · rw [d.memEnd, same, memEnd]
    · rw [root, pml4]
    · rw [kept f (outside k (Nat.le_refl k) (by omega)) fun i hi => outside i (by omega)]
      exact others f outside

theorem alHvMmPrepareFakePageTables_cases {s : State} (fresh : Fresh P s.machine k)
    (known : Frame → Bool) (realCr3 : BitVec 64) :
    Ept.Died (alHvMmPrepareFakePageTables P known realCr3 s) s.machine (k + 66) ∨
      (∃ t, alHvMmPrepareFakePageTables P known realCr3 s = .ok (none, t) ∧
        (known (addressOfPageDirectory realCr3) = false ∨
          ∀ z ∈ upperHalf, s.machine.mem (addressOfPageDirectory realCr3) z ≠ 0)) ∨
      ∃ z t, alHvMmPrepareFakePageTables P known realCr3 s = .ok (some (P.page k), t) ∧
        Prepared P k (addressOfPageDirectory realCr3) s z t := by
  rw [alHvMmPrepareFakePageTables]
  rcases Ept.allocatePage_cases (P := P) fresh.usable fresh.top fresh.bound with died | ⟨room, took⟩
  · exact .inl ((died.mono (by omega) rfl).bind _)
  have copied := upperCopy_pool fresh room (addressOfPageDirectory realCr3)
  simp only [took, Outcome.ok_bind]
  by_cases seen : known (addressOfPageDirectory realCr3) = false
  · rw [if_pos seen]
    exact .inr (.inl ⟨_, rfl, .inl seen⟩)
  rw [if_neg seen]
  generalize hc : Ept.Machine.fill _ _ _ = c
  have page : c.mem (P.page k) = upperCopy (s.machine.mem (addressOfPageDirectory realCr3)) := by
    rw [← hc, ← copied]
    exact Function.update_self _ _ _
  have kept : ∀ f, f ≠ P.page k → c.mem f = s.machine.mem f := by
    intro f ne
    rw [← hc]
    exact Function.update_of_ne ne _ _
  have limits : c.limits = (s.machine.withPages (k + 1)).limits := by
    rw [← hc]
    rfl
  cases first : upperHalf.find? fun z => c.mem (P.page k) z = 0 with
  | none =>
      right
      left
      refine ⟨⟨c, s.memBase⟩, ?_, .inr fun z mem unused => ?_⟩
      · rw [alHvMmSetAllPa, first]
        rfl
      · have present := List.find?_eq_none.mp first z mem
        rw [page, upperCopy, if_pos (toNat_mem_upperHalf mem), unused] at present
        exact present (decide_eq_true rfl)
  | some z =>
      have upper := toNat_mem_upperHalf (List.mem_of_find?_eq_some first)
      have unused : s.machine.mem (addressOfPageDirectory realCr3) z = 0 := by
        have found : c.mem (P.page k) z = 0 := by simpa using List.find?_some first
        rwa [page, upperCopy, if_pos upper] at found
      have top : Pool.InPool c.limits.poolBigMemEnd := by
        rw [limits]
        exact fresh.top
      rcases alHvMmSetAllPa_cases s.machine ⟨c, s.memBase⟩ room
        (by rw [limits]; rfl) (by rw [limits]; rfl) top page
        (fun i hi inside a => by
          rw [kept _ (P.page_ne inside room (by omega))]
          exact fresh.zero i (by omega) inside a)
        (fun f outside => kept f (outside k (Nat.le_refl k) room)) first with died | ⟨t, done, w⟩
      · exact .inl (died.bind _)
      · right
        right
        rw [done]
        refine ⟨z, ⟨t, windowBase z⟩, ?_, w, rfl, upper, unused⟩
        rw [Outcome.ok_bind, if_neg (by simp), if_neg (P.nonzero k room)]
        rfl

theorem Window.walk (w : Window P k z copy start 64 s) {pa : BitVec 64} (low : Below512G pa) :
    walk s.mem (P.page k) (windowBase z + pa) =
      if pa.toNat < 2^36 then some ⟨pa, true⟩ else none := by
  have d : Directories P (k + 1) s 64 s :=
    ⟨w.bound, w.usable, rfl, w.top, w.pdpt, w.pd, w.zero, fun _ _ => rfl⟩
  refine d.walk ?_ low
  rw [w.pml4, Function.update_self]

end Window

/-- The address that the host uses for `pa` is mapped to `pa`, with write access. -/
def Reaches (t : State) (table : Frame) (pa : BitVec 64) : Prop :=
  walk t.machine.mem table (alHvMmGetVa t pa) = some ⟨pa, true⟩

section Coverage
variable {P : Platform} {known : Frame → Bool} {realCr3 pa : BitVec 64} {s t : State} {k k' fuel : Nat}
  {cold guest : Ept.Machine} {table : Frame} {leaf : Ept.Leaf}

theorem Prepared.reaches_iff {pt : Frame} {z : Index} (h : Prepared P k pt s z t) (low : Below512G pa) :
    Reaches t (P.page k) pa ↔ pa.toNat < 2^36 := by
  rw [Reaches, alHvMmGetVa, h.memBase, h.window.walk low]
  by_cases small : pa.toNat < 2^36
  · rw [if_pos small]
    exact iff_of_true rfl small
  · rw [if_neg small]
    exact iff_of_false nofun small

/-- const_ept maps 512GB, the window of the host has 64. -/
theorem window_reaches_iff (fresh : Fresh P s.machine k)
    (built : alHvMmPrepareFakePageTables P known realCr3 s = .ok (some table, t))
    (freshEpt : Fresh P cold k') (enough : 4 ≤ fuel) (inited : Ept.init P fuel cold = .ok (true, guest))
    (mapped : Ept.walk guest.mem guest.constEpt pa = some leaf) :
    Reaches t table pa ↔ pa.toNat < 2^36 := by
  have low : Below512G pa := by
    by_contra high
    rw [((Ept.init_identity_map freshEpt enough).2 guest inited).2.upper pa high] at mapped
    cases mapped
  rcases alHvMmPrepareFakePageTables_cases fresh known realCr3 with died | ⟨_, refused, -⟩ |
    ⟨z, t', done, prepared⟩
  · rw [died.1] at built
    cases built
  · rw [refused] at built
    cases built
  · rw [done] at built
    cases built
    exact prepared.reaches_iff low

/-- A machine before init whose system tables, at frame 0x100000, map something at the end of the
address space. -/
def systemState : State where
  machine := { Ept.coldMachine with
    mem := fun f a => if f = 0x100000 ∧ a = 511 then 0x1ad063 else 0 }
  memBase := 0

theorem coldPlatform_page_ne {i : Nat} (inside : i < poolPages) : Ept.coldPlatform.page i ≠ 0x100000 := by
  intro same
  have bound : poolPages = 2560 := rfl
  have frame := congrArg BitVec.toNat same
  simp only [Ept.coldPlatform, BitVec.ofNat_eq_ofNat, BitVec.toNat_ofNat] at frame
  omega

theorem systemState_fresh : Fresh Ept.coldPlatform systemState.machine 0 :=
  ⟨Nat.zero_le _, rfl, ⟨by decide, Int.le_refl _⟩, fun _ _ inside _ =>
    if_neg fun here => coldPlatform_page_ne inside here.1⟩

theorem systemState_prepared :
    ∃ z t, alHvMmPrepareFakePageTables Ept.coldPlatform (fun _ => true) 0x100000000 systemState =
        .ok (some (Ept.coldPlatform.page 0), t) ∧
      Prepared Ept.coldPlatform 0 0x100000 systemState z t := by
  rcases alHvMmPrepareFakePageTables_cases systemState_fresh (fun _ => true) 0x100000000 with
    died | ⟨_, -, unseen | full⟩ | ⟨z, t, done, prepared⟩
  · have short := died.2
    exact absurd short (by decide)
  · cases unseen
  · exact absurd rfl (full 256 (by decide))
  · exact ⟨z, t, done, prepared⟩

theorem window_reaches_iff_first : ∃ t guest leaf,
    alHvMmPrepareFakePageTables Ept.coldPlatform (fun _ => true) 0x100000000 systemState =
      .ok (some (Ept.coldPlatform.page 0), t) ∧
    Ept.init Ept.coldPlatform 4 Ept.coldMachine = .ok (true, guest) ∧
    Ept.walk guest.mem guest.constEpt 0 = some leaf ∧ Reaches t (Ept.coldPlatform.page 0) 0 := by
  obtain ⟨z, t, built, -⟩ := systemState_prepared
  obtain ⟨guest, inited, map⟩ := Ept.init_identity_map_cold
  have mapped := map.leaf 0 (show (0 : BitVec 64).toNat < 2^39 by decide)
  exact ⟨t, guest, _, built, inited, mapped, (window_reaches_iff systemState_fresh built
    Ept.coldMachine_fresh (Nat.le_refl 4) inited mapped).mpr (by decide)⟩

/-- The guest has the page at 64GB, the host has not. -/
theorem window_ends_at_64gb : ∃ t guest leaf,
    alHvMmPrepareFakePageTables Ept.coldPlatform (fun _ => true) 0x100000000 systemState =
      .ok (some (Ept.coldPlatform.page 0), t) ∧
    Ept.init Ept.coldPlatform 4 Ept.coldMachine = .ok (true, guest) ∧
    Ept.walk guest.mem guest.constEpt 0x1000000000 = some leaf ∧
    ¬ Reaches t (Ept.coldPlatform.page 0) 0x1000000000 := by
  obtain ⟨z, t, built, prepared⟩ := systemState_prepared
  have low : Below512G 0x1000000000 := show (0x1000000000 : BitVec 64).toNat < 2^39 by decide
  obtain ⟨guest, inited, map⟩ := Ept.init_identity_map_cold
  exact ⟨t, guest, _, built, inited, map.leaf _ low,
    fun reaches => absurd ((prepared.reaches_iff low).mp reaches) (by decide)⟩

end Coverage

end LMalz.Host
