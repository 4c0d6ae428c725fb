import LMalz.Ept.Termination
import LMalz.Host.ByteAccess
import LMalz.Monitor.Runs

/- Which physical pages ALvmxMNTsetTarget touches for a range of virtual addresses. -/
namespace LMalz.Monitor
open Ept Transition
open Host (pageAt toNat_page toNat_pageAt toNat_add_ofNat)

section Ranges
variable (map : BitVec 64 → Option Frame) (va size : BitVec 64)

/-- ALhvMMgetPA on a page address: 0 for a page that is not mapped. -/
def lookupPage (page : BitVec 64) : BitVec 64 :=
  match map page with
  | some f => f.setWidth 64 <<< 12
  | none => 0

/-- The call for a range whose pages are mapped by `map`. -/
def rangeCall : Call := ⟨va, size, lookupPage map⟩

/-- The address is in a physical page behind a mapped page of the range. -/
def Backs (gpa : BitVec 64) : Prop :=
  ∃ k, k < size.toNat ∧ ∃ f, map (pageAt va k) = some f ∧ gpa.toNat / 0x1000 = f.toNat

/-- The call changed nothing but the pages behind the range, and those as it should. -/
structure TouchesRange (target vice : EptCls) (s s' : Machine) : Prop where
  changed : ∀ gpa, executable s' target gpa ≠ executable s target gpa ∨
    executable s' vice gpa ≠ executable s vice gpa → Backs map va size gpa
  backed : ∀ gpa, Backs map va size gpa →
    executable s' target gpa = true ∧ executable s' vice gpa = false

/-- The rounded end of the range is below 2^64. -/
def EndFits : Prop := va.toNat + size.toNat ≤ 2^64 - 0x1000

/-- An unmapped page does no harm: page 0 is behind the range too, or monitored already. With an end
that wraps, all pages must have been monitored before. -/
def Harmless (target : EptCls) (s : Machine) : Prop :=
  (EndFits va size → ∀ k, k < size.toNat → map (pageAt va k) = none →
    executable s target 0 = true ∨ Backs map va size 0) ∧
  (¬ EndFits va size → ∀ gpa, Backs map va size gpa → executable s target gpa = true)

/-- No page that the loop looks up lies at 512GB or above. -/
def LowRange : Prop :=
  EndFits va size → ∀ k, k < size.toNat → Below512G (lookupPage map (pageAt va k))

end Ranges

section Pages
variable {map : BitVec 64 → Option Frame} {va size : BitVec 64} {p pa gpa : BitVec 64}

/-- The loop visits the pages that the range meets, the first and the last one in part. -/
theorem mem_pagesBefore (some : 0 < size.toNat) (fits : EndFits va size) :
    p ∈ pagesBefore ((va + size + 0xfff) &&& ~~~0xfff) (va &&& ~~~0xfff) ↔
      ∃ k, k < size.toNat ∧ p = pageAt va k := by
  have fits : va.toNat + size.toNat ≤ 2^64 - 0x1000 := fits
  have start := toNat_page va
  have low : (0xfff : BitVec 64).toNat = 0xfff := by decide
  have stop : ((va + size + 0xfff) &&& ~~~0xfff).toNat =
      (va.toNat + size.toNat + 0xfff) / 4096 * 4096 := by
    rw [toNat_page, BitVec.toNat_add, BitVec.toNat_add, low]
    omega
  have next : ∀ n, n < ((va.toNat + size.toNat + 0xfff) / 4096 * 4096 -
      va.toNat / 4096 * 4096 + 0xfff) / 0x1000 → ((va &&& ~~~0xfff) + BitVec.ofNat 64 (0x1000 * n)).toNat =
        va.toNat / 4096 * 4096 + 0x1000 * n := by
    intro n hn
    rw [toNat_add_ofNat (by rw [start]; omega), start]
  rw [pagesBefore, start, stop, List.mem_map]
  constructor
  · rintro ⟨n, hn, rfl⟩
    have hn := List.mem_range.mp hn
    refine ⟨max va.toNat (va.toNat / 4096 * 4096 + 0x1000 * n) - va.toNat, by omega, ?_⟩
    apply BitVec.eq_of_toNat_eq
    rw [next n hn, toNat_pageAt (by omega)]
    omega
  · rintro ⟨k, hk, rfl⟩
    have hn : ((va.toNat + k) / 4096 * 4096 - va.toNat / 4096 * 4096) / 0x1000 <
        ((va.toNat + size.toNat + 0xfff) / 4096 * 4096 - va.toNat / 4096 * 4096 + 0xfff) / 0x1000 := by
      omega
    refine ⟨_, List.mem_range.mpr hn, ?_⟩
    apply BitVec.eq_of_toNat_eq
    rw [next _ hn, toNat_pageAt (by omega)]
    omega

theorem mem_addresses (some : 0 < size.toNat) (fits : EndFits va size) :
    pa ∈ (rangeCall map va size).addresses ↔
      ∃ k, k < size.toNat ∧ pa = lookupPage map (pageAt va k) := by
  have pages : (rangeCall map va size).addresses =
      (pagesBefore ((va + size + 0xfff) &&& ~~~0xfff) (va &&& ~~~0xfff)).map (lookupPage map) := rfl
  rw [pages, List.mem_map]
  constructor
  · rintro ⟨p, hp, rfl⟩
    obtain ⟨k, hk, rfl⟩ := (mem_pagesBefore some fits).mp hp
    exact ⟨k, hk, rfl⟩
  · rintro ⟨k, hk, rfl⟩
    exact ⟨_, (mem_pagesBefore some fits).mpr ⟨k, hk, rfl⟩, rfl⟩

/-- The end of the range wraps to 0, and the loop ends at once. -/
theorem addresses_wrapped (inside : va.toNat + size.toNat < 2^64) (wraps : ¬ EndFits va size) :
    (rangeCall map va size).addresses = [] := by
  have wraps : ¬ va.toNat + size.toNat ≤ 2^64 - 0x1000 := wraps
  have low : (0xfff : BitVec 64).toNat = 0xfff := by decide
  have stop : ((va + size + 0xfff) &&& ~~~0xfff).toNat = 0 := by
    rw [toNat_page, BitVec.toNat_add, BitVec.toNat_add, low]
    omega
  have pages : (rangeCall map va size).addresses =
      (pagesBefore ((va + size + 0xfff) &&& ~~~0xfff) (va &&& ~~~0xfff)).map (lookupPage map) := rfl
  rw [pages, pagesBefore, stop]
  simp

theorem lookupPage_toNat {f : Frame} (mapped : map p = some f) :
    (lookupPage map p).toNat = f.toNat * 0x1000 := by
  have small := f.isLt
  rw [lookupPage, mapped]
  simp only [BitVec.toNat_shiftLeft, BitVec.toNat_setWidth, Nat.shiftLeft_eq]
  omega

theorem pageOf_toNat (fits : gpa.toNat < 2^48) : (pageOf gpa).toNat = gpa.toNat / 0x1000 := by
  rw [pageOf, BitField.toNat_get]
  omega

theorem pageOf_eq {f : Frame} (fits : gpa.toNat < 2^48) :
    pageOf gpa = f ↔ gpa.toNat / 0x1000 = f.toNat := by
  rw [← pageOf_toNat fits, ← BitVec.toNat_inj]

end Pages

section Calls
variable {P : Platform} {fuel : Nat} {target vice : EptCls} {s s' : Machine} {pages : List Frame}
  {k : Nat} {map : BitVec 64 → Option Frame} {va size gpa : BitVec 64}

theorem Monitored.executable_high (h : Monitored P target vice s pages k) (high : ¬ Below512G gpa) :
    executable s target gpa = false ∧ executable s vice gpa = false := by
  obtain ⟨role, p⟩ := h
  have shaped := p.tables.shaped
  rw [executable, executable, translation, translation, walk_upper shaped p.rootX high,
    walk_upper shaped p.rootY high]
  exact ⟨rfl, rfl⟩

theorem Monitored.executable_apart (h : Monitored P target vice s pages k)
    (allowed : executable s target gpa = true) : executable s vice gpa = false := by
  by_cases low : Below512G gpa
  · rw [h.executable_target low] at allowed
    rw [h.executable_vice low, allowed]
    rfl
  · exact (h.executable_high low).2

theorem Monitored.below_of_returned (h : Monitored P target vice s pages k) (enough : 6 ≤ fuel)
    {pas : List (BitVec 64)} (fits : ∀ pa ∈ pas, pa.toNat < 2^48)
    (done : Monitor.setTargetPages P fuel target vice pas s = .ok s') : ∀ pa ∈ pas, Below512G pa := by
  induction pas generalizing s pages k with
  | nil => exact nofun
  | cons pa pas ih =>
      rw [Monitor.setTargetPages] at done
      obtain ⟨s₁, first, rest⟩ := Outcome.of_bind done
      have low : Below512G pa := by
        by_contra high
        rw [Below512G.iff (fits pa List.mem_cons_self)] at high
        rw [Monitor.setTargetPage] at first
        obtain ⟨r, returned, -⟩ := Outcome.of_bind first
        obtain ⟨role, p⟩ := h
        exact p.among.setPteAccess_high high ⟨true, true, true⟩ r returned
      rcases h.setTargetPage low enough with died | ⟨s₂, k₂, returned, h₂, -⟩
      · rw [died.1] at first
        cases first
      · rw [returned] at first
        cases first
        exact List.forall_mem_cons.mpr
          ⟨low, ih h₂ (fun q hq => fits q (List.mem_cons_of_mem _ hq)) rest⟩

theorem lookupPage_fits (map : BitVec 64 → Option Frame) (p : BitVec 64) :
    (lookupPage map p).toNat < 2^48 := by
  cases mapped : map p with
  | none => rw [lookupPage, mapped]; decide
  | some f =>
      have small := f.isLt
      rw [lookupPage_toNat mapped]
      omega

variable (h : Monitored P target vice s pages k) (enough : 6 ≤ fuel) (some : 0 < size.toNat)
include h enough some

theorem Monitored.rangeCall (fits : EndFits va size)
    (done : alVmxMntSetTarget P fuel target vice (rangeCall map va size) s = .ok s') :
    (∀ n, n < size.toNat → Below512G (lookupPage map (pageAt va n))) ∧
    ∃ new k', Monitored P target vice s' (new ++ pages) k' ∧
      ∀ page, page ∈ new ↔ ∃ n, n < size.toNat ∧ page = pageOf (lookupPage map (pageAt va n)) := by
  have below : (Monitor.rangeCall map va size).Below := by
    refine h.below_of_returned enough (fun pa hpa => ?_) done
    obtain ⟨n, -, rfl⟩ := (mem_addresses some fits).mp hpa
    exact lookupPage_fits map _
  refine ⟨fun n hn => below _ ((mem_addresses some fits).mpr ⟨n, hn, rfl⟩), ?_⟩
  rcases h.call below enough with died | ⟨t, k', returned, after, -⟩
  · rw [died.1] at done
    cases done
  rw [returned] at done
  cases done
  refine ⟨_, k', after, fun page => ?_⟩
  rw [Event.pages, List.mem_map]
  constructor
  · rintro ⟨pa, hpa, rfl⟩
    obtain ⟨n, hn, rfl⟩ := (mem_addresses some fits).mp hpa
    exact ⟨n, hn, rfl⟩
  · rintro ⟨n, hn, rfl⟩
    exact ⟨_, (mem_addresses some fits).mpr ⟨n, hn, rfl⟩, rfl⟩

end Calls

section Touches
variable {P : Platform} {fuel : Nat} {target vice : EptCls} {s s' : Machine} {pages : List Frame}
  {k : Nat} {map : BitVec 64 → Option Frame} {va size gpa : BitVec 64}

/-- A page is passed for a mapped page of the range, or it is page 0 and a page is unmapped. -/
theorem backs_or_unmapped (low : Below512G gpa) {n : Nat} (hn : n < size.toNat)
    (passed : pageOf gpa = pageOf (lookupPage map (pageAt va n))) :
    Backs map va size gpa ∨ map (pageAt va n) = none ∧ pageOf gpa = 0 := by
  have fits : gpa.toNat < 2^48 := by
    have small : gpa.toNat < 2^39 := low
    omega
  cases mapped : map (pageAt va n) with
  | none =>
      rw [lookupPage, mapped] at passed
      exact .inr ⟨rfl, passed⟩
  | some f =>
      have frame : pageOf (lookupPage map (pageAt va n)) = f := by
        rw [pageOf_eq (lookupPage_fits map _), lookupPage_toNat mapped]
        omega
      exact .inl ⟨n, hn, f, mapped, (pageOf_eq fits).mp (passed.trans frame)⟩

theorem Monitored.touches_of_harmless (h : Monitored P target vice s pages k) {new : List Frame}
    {k' : Nat} (after : Monitored P target vice s' (new ++ pages) k')
    (passed : ∀ page, page ∈ new ↔
      ∃ n, n < size.toNat ∧ page = pageOf (lookupPage map (pageAt va n)))
    (below : ∀ n, n < size.toNat → Below512G (lookupPage map (pageAt va n)))
    (harmless : ∀ n, n < size.toNat → map (pageAt va n) = none →
      executable s target 0 = true ∨ Backs map va size 0) :
    TouchesRange map va size target vice s s' := by
  refine ⟨fun gpa changed => ?_, fun gpa backs => ?_⟩
  · by_cases low : Below512G gpa
    · obtain ⟨isNew, notOld⟩ : pageOf gpa ∈ new ∧ pageOf gpa ∉ pages := by
        rw [after.executable_target low, h.executable_target low, after.executable_vice low,
          h.executable_vice low] at changed
        by_cases old : pageOf gpa ∈ pages
        · simp [old] at changed
        · simpa [old] using changed
      obtain ⟨n, hn, same⟩ := (passed _).mp isNew
      rcases backs_or_unmapped low hn same with backs | ⟨unmapped, zero⟩
      · exact backs
      · have low0 : Below512G 0 := (by decide : (0 : BitVec 64).toNat < 2^39)
        have page0 : pageOf 0 = 0 := by decide
        rcases harmless n hn unmapped with already | ⟨m, hm, f, mapped, frame⟩
        · rw [h.executable_target low0, page0] at already
          exact absurd (zero ▸ of_decide_eq_true already) notOld
        · refine ⟨m, hm, f, mapped, ?_⟩
          have small : gpa.toNat < 2^39 := low
          have first := (pageOf_eq (show gpa.toNat < 2^48 by omega)).mp zero
          exact first.trans frame
    · rw [(h.executable_high low).1, (h.executable_high low).2, (after.executable_high low).1,
        (after.executable_high low).2] at changed
      simp at changed
  · obtain ⟨n, hn, f, mapped, frame⟩ := backs
    have lowPage : (lookupPage map (pageAt va n)).toNat < 2^39 := below n hn
    have value := lookupPage_toNat mapped
    have low : Below512G gpa := by
      rw [Below512G]
      omega
    have page : pageOf gpa = pageOf (lookupPage map (pageAt va n)) := by
      have small : gpa.toNat < 2^39 := low
      rw [pageOf_eq (show gpa.toNat < 2^48 by omega), pageOf_toNat (lookupPage_fits map _), value]
      omega
    have isNew : pageOf gpa ∈ new ++ pages := List.mem_append_left _ ((passed _).mpr ⟨n, hn, page⟩)
    rw [after.executable_target low, after.executable_vice low]
    simp [isNew]

theorem Monitored.touches_iff (h : Monitored P target vice s pages k) (enough : 6 ≤ fuel)
    (some : 0 < size.toNat) (inside : va.toNat + size.toNat < 2^64)
    (done : alVmxMntSetTarget P fuel target vice (Monitor.rangeCall map va size) s = .ok s') :
    TouchesRange map va size target vice s s' ↔ Harmless map va size target s := by
  by_cases fits : EndFits va size
  · obtain ⟨below, new, k', after, passed⟩ := h.rangeCall enough some fits done
    constructor
    · refine fun touches => ⟨fun _ n hn unmapped => ?_, fun wraps => absurd fits wraps⟩
      by_contra harm
      rw [not_or, Bool.not_eq_true] at harm
      have low0 : Below512G 0 := (by decide : (0 : BitVec 64).toNat < 2^39)
      have zero : pageOf 0 ∈ new ++ pages := by
        refine List.mem_append_left _ ((passed _).mpr ⟨n, hn, ?_⟩)
        rw [lookupPage, unmapped]
      have allowed : executable s' target 0 = true := by
        rw [after.executable_target low0]
        exact decide_eq_true zero
      exact harm.2 (touches.changed 0 (.inl (by rw [allowed, harm.1]; decide)))
    · exact fun harmless => h.touches_of_harmless after passed below (harmless.1 fits)
  · rw [alVmxMntSetTarget, addresses_wrapped inside fits] at done
    cases done
    constructor
    · exact fun touches => ⟨fun ends => absurd ends fits, fun _ gpa backs => (touches.backed gpa backs).1⟩
    · refine fun harmless => ⟨fun gpa changed => by simp at changed, fun gpa backs => ?_⟩
      have allowed := harmless.2 fits gpa backs
      exact ⟨allowed, h.executable_apart allowed⟩

end Touches

/-- ALvmxMNTsetTarget on a range, after any run of the monitor: it returns and touches exactly the
pages behind the range if and only if no unmapped page does harm and no page is at 512GB or above,
unless the pool is used up. -/
theorem setTarget_touches_iff {P : Platform} {fuel : Nat} {target vice : EptCls} {s₀ s : Machine}
    {es : List Event} (start : Started P fuel target vice s₀) (enough : 6 ≤ fuel)
    (run : Run (Step P fuel target vice) s₀ es s) (map : BitVec 64 → Option Frame)
    {va size : BitVec 64} (some : 0 < size.toNat) (inside : va.toNat + size.toNat < 2^64) :
    (∀ s', alVmxMntSetTarget P fuel target vice (rangeCall map va size) s = .ok s' →
      LowRange map va size ∧ (TouchesRange map va size target vice s s' ↔ Harmless map va size target s)) ∧
    (LowRange map va size →
      (∃ s', alVmxMntSetTarget P fuel target vice (rangeCall map va size) s = .ok s') ∨
      alVmxMntSetTarget P fuel target vice (rangeCall map va size) s = .killed ∧
        s.limits.poolBigMemEnd <
          s.limits.poolUsable + 0x8000 * (rangeCall map va size).addresses.length) := by
  obtain ⟨k₀, h₀⟩ := start.monitored (by omega)
  obtain ⟨k, h, -⟩ := h₀.run run enough
  refine ⟨fun s' done => ⟨fun fits => (h.rangeCall enough some fits done).1,
    h.touches_iff enough some inside done⟩, fun low => ?_⟩
  have below : (rangeCall map va size).Below := by
    intro pa hpa
    by_cases fits : EndFits va size
    · obtain ⟨n, hn, rfl⟩ := (mem_addresses some fits).mp hpa
      exact low fits n hn
    · rw [addresses_wrapped inside fits] at hpa
      cases hpa
  rcases h.call below enough with died | ⟨s', k', returned, -⟩
  · refine .inr ⟨died.1, ?_⟩
    obtain ⟨role, p⟩ := h
    have usable := p.tables.usable
    have upper := died.2
    omega
  · exact .inl ⟨s', returned⟩

theorem started_range (map : BitVec 64 → Option Frame) {va size : BitVec 64}
    (few : (rangeCall map va size).addresses.length ≤ 2) (below : (rangeCall map va size).Below) :
    ∃ target vice s₀ s', Started coldPlatform 6 target vice s₀ ∧
      alVmxMntSetTarget coldPlatform 6 target vice (rangeCall map va size) s₀ = .ok s' := by
  obtain ⟨target, vice, s₀, start, limits⟩ := started_cold
  obtain ⟨k, h₀⟩ := start.monitored (by omega)
  have usable : s₀.limits.poolUsable = 0x1000 * k := by
    obtain ⟨role, p⟩ := h₀
    exact p.tables.usable
  rcases h₀.call below (Nat.le_refl 6) with died | ⟨s', k', done, -⟩
  · have short := died.2
    have size : Pool.poolSize = 0xA00000 := rfl
    rw [limits] at usable short
    simp only at usable short
    omega
  · exact ⟨target, vice, s₀, s', start, done⟩

theorem setTarget_touches_iff_two_pages : ∃ target vice s₀ s',
    alVmxMntSetTarget coldPlatform 6 target vice (rangeCall (fun _ => some 5) 0x400abc 0x1000) s₀ =
      .ok s' ∧
    TouchesRange (fun _ => some 5) 0x400abc 0x1000 target vice s₀ s' := by
  have addresses : (rangeCall (fun _ => some 5) 0x400abc 0x1000).addresses = [0x5000, 0x5000] := by
    decide
  have below : (rangeCall (fun _ => some 5) 0x400abc 0x1000).Below := by
    intro pa hpa
    rw [addresses] at hpa
    obtain rfl : pa = 0x5000 := by simpa using hpa
    exact (by decide : (0x5000 : BitVec 64).toNat < 2^39)
  obtain ⟨target, vice, s₀, s', start, done⟩ := started_range (fun _ => some 5)
    (by rw [addresses]; decide) below
  have harmless : Harmless (fun _ => some 5) 0x400abc 0x1000 target s₀ := by
    have fits : EndFits 0x400abc 0x1000 :=
      (by decide : (0x400abc : BitVec 64).toNat + (0x1000 : BitVec 64).toNat ≤ 2^64 - 0x1000)
    refine ⟨fun _ _ _ unmapped => ?_, fun wraps => absurd fits wraps⟩
    cases unmapped
  exact ⟨target, vice, s₀, s', done, (((setTarget_touches_iff start (Nat.le_refl 6) (.nil s₀) _
    (by decide) (by decide)).1 s' done).2).mpr harmless⟩

/-- One page that is not mapped: the physical page 0, which is behind no page of the range, becomes
executable in the target EPT only. -/
theorem setTarget_touches_page_zero : ∃ target vice s₀ s',
    Started coldPlatform 6 target vice s₀ ∧
    alVmxMntSetTarget coldPlatform 6 target vice (rangeCall (fun _ => none) 0x400000 0x1000) s₀ =
      .ok s' ∧
    executable s₀ target 0 = false ∧ executable s' target 0 = true ∧
    executable s₀ vice 0 = true ∧ executable s' vice 0 = false ∧
    ¬ Backs (fun _ => none) 0x400000 0x1000 0 ∧
    ¬ TouchesRange (fun _ => none) 0x400000 0x1000 target vice s₀ s' := by
  have addresses : (rangeCall (fun _ => none) 0x400000 0x1000).addresses = [0] := by decide
  have low : Below512G 0 := (by decide : (0 : BitVec 64).toNat < 2^39)
  have below : (rangeCall (fun _ => none) 0x400000 0x1000).Below := by
    intro pa hpa
    rw [addresses, List.mem_singleton] at hpa
    rw [hpa]
    exact low
  obtain ⟨target, vice, s₀, s', start, done⟩ := started_range (fun _ => none)
    (by rw [addresses]; decide) below
  obtain ⟨k, h⟩ := start.monitored (by omega)
  have fits : EndFits 0x400000 0x1000 :=
    (by decide : (0x400000 : BitVec 64).toNat + (0x1000 : BitVec 64).toNat ≤ 2^64 - 0x1000)
  obtain ⟨-, new, k', after, passed⟩ := h.rangeCall (Nat.le_refl 6) (by decide) fits done
  have isNew : pageOf 0 ∈ new ++ [] := List.mem_append_left _ ((passed _).mpr ⟨0, by decide, rfl⟩)
  have before : executable s₀ target 0 = false := h.executable_target low
  have allowed : executable s' target 0 = true := by
    rw [after.executable_target low]
    exact decide_eq_true isNew
  have notBacked : ¬ Backs (fun _ => none) 0x400000 0x1000 0 := fun ⟨_, _, _, mapped, _⟩ =>
    nomatch mapped
  refine ⟨target, vice, s₀, s', start, done, before, allowed, h.executable_vice low,
    after.executable_apart allowed, notBacked, fun touches => notBacked ?_⟩
  exact touches.changed 0 (.inl (by rw [allowed, before]; decide))

end LMalz.Monitor
