import LMalz.Ept.ConstEpt

/- EPT_CLS::init: the constant table maps every address below 512GB to itself. -/
namespace LMalz.Ept

/-- The type of the range that the leaf of an address covers. -/
def leafType (s : Machine) (gpa : BitVec 64) : BitVec 3 :=
  if gpa.toNat < 0x200000 then alHvMmGetMemoryType s (gpa >>> 12 <<< 12) 0x1000
  else alHvMmGetMemoryType s (gpa >>> 21 <<< 21) 0x200000

section Arithmetic
variable {gpa : BitVec 64}

theorem firstPages (low : Below512G gpa) :
    pdptIndex gpa = 0 ∧ pdIndex gpa = 0 ↔ gpa.toNat < 0x200000 := by
  have small : gpa.toNat < 2^39 := low
  rw [← BitVec.toNat_inj, ← BitVec.toNat_inj, pdptIndex, pdIndex, BitField.toNat_get,
    BitField.toNat_get]
  simp only [BitVec.ofNat_eq_ofNat, BitVec.toNat_ofNat]
  omega

theorem pteAddress_ptIndex (first : gpa.toNat < 0x200000) :
    pteAddress (ptIndex gpa).toNat = gpa >>> 12 <<< 12 := by
  apply BitVec.eq_of_toNat_eq
  simp only [pteAddress, ptIndex, BitField.toNat_get, BitVec.toNat_ofNat, BitVec.toNat_shiftLeft,
    BitVec.toNat_ushiftRight, Nat.shiftRight_eq_div_pow, Nat.shiftLeft_eq]
  omega

theorem pdeAddress_indices' (low : Below512G gpa) :
    pdeAddress (512 * (pdptIndex gpa).toNat + (pdIndex gpa).toNat) = gpa >>> 21 <<< 21 := by
  have small : gpa.toNat < 2^39 := low
  apply BitVec.eq_of_toNat_eq
  simp only [pdeAddress, pdptIndex, pdIndex, BitField.toNat_get, BitVec.toNat_ofNat,
    BitVec.toNat_shiftLeft, BitVec.toNat_ushiftRight, Nat.shiftRight_eq_div_pow, Nat.shiftLeft_eq]
  omega

theorem get_page (gpa : BitVec 64) : BitField.get (gpa >>> 12 <<< 12) 12 36 = BitField.get gpa 12 36 := by
  apply BitVec.eq_of_toNat_eq
  simp only [BitField.toNat_get, BitVec.toNat_shiftLeft, BitVec.toNat_ushiftRight,
    Nat.shiftRight_eq_div_pow, Nat.shiftLeft_eq]
  omega

theorem get_page2mb (gpa : BitVec 64) : BitField.get (gpa >>> 21 <<< 21) 21 27 = BitField.get gpa 21 27 := by
  apply BitVec.eq_of_toNat_eq
  simp only [BitField.toNat_get, BitVec.toNat_shiftLeft, BitVec.toNat_ushiftRight,
    Nat.shiftRight_eq_div_pow, Nat.shiftLeft_eq]
  omega

end Arithmetic

theorem pageFrameNumber_newPte (s : Machine) (i : BitVec 64) :
    pageFrameNumber (newPte s i) = BitField.get i 12 36 := by
  rw [newPte, pageFrameNumber_setMemoryType, pageFrameNumber_setPageFrameNumber]

theorem pageFrameNumber2mb_newPde (s : Machine) (i : BitVec 64) :
    pageFrameNumber2mb (newPde s i) = BitField.get i 21 27 := by
  rw [newPde, pageFrameNumber2mb_setMemoryType, pageFrameNumber2mb_setPageFrameNumber2mb]

section Identity
variable {P : Platform} {start s : Machine} {k : Nat} {gpa : BitVec 64}
  (b : Built P k start 512 262144 512 s)
include b

theorem Built.walk (low : Below512G gpa) : Ept.walk s.mem (P.page k) gpa =
    some ⟨BitField.get gpa 12 36, .full, leafType start gpa,
      if gpa.toNat < 0x200000 then .kb4 else .mb2⟩ := by
  obtain ⟨e0, e1, e2, h0, h1, h2, eq⟩ := b.shaped.walk_eq role_pml4 low
  obtain ⟨i0, i1, i2, i3⟩ := b.entries low.pml4Index
  rw [i0] at h0
  rw [i1] at h1
  rw [i2] at h2
  obtain rfl := Option.some.inj h0
  obtain rfl := Option.some.inj h1
  obtain rfl := Option.some.inj h2
  have full : Access.full ≠ .none := by decide
  rw [eq, i3]
  by_cases first : gpa.toNat < 0x200000
  · rw [if_pos ((firstPages low).mpr first), if_pos ((firstPages low).mpr first)]
    simp only [leafOf, access_tableEntry, access_newPte, full, or_self, if_false, Access.full_meet,
      pageFrameNumber_newPte, leafType, if_pos first, pteAddress_ptIndex first, get_page]
    rw [newPte, memoryType_setMemoryType]
  · rw [if_neg (mt (firstPages low).mp first), if_neg (mt (firstPages low).mp first)]
    simp only [leafOf, access_tableEntry, access_newPde, full, or_self, if_false, Access.full_meet,
      pageFrameNumber2mb_newPde, leafType, if_neg first, pdeAddress_indices' low, get_page2mb]
    rw [newPde, memoryType_setMemoryType, get_frame]

theorem Built.access_full {n : Nat} {e : Entry} (low : pml4Index gpa = 0) (deep : n ≤ 3)
    (he : entryAt s.mem (P.page k) gpa n = some e) : access e = .full := by
  obtain ⟨i0, i1, i2, i3⟩ := b.entries low
  match n, deep with
  | 0, _ =>
      rw [i0] at he
      rw [← Option.some.inj he, access_tableEntry]
  | 1, _ =>
      rw [i1] at he
      rw [← Option.some.inj he, access_tableEntry]
  | 2, _ =>
      rw [i2] at he
      rw [← Option.some.inj he]
      split
      · exact access_tableEntry _
      · exact access_newPde _ _
  | 3, _ =>
      rw [i3] at he
      split at he
      · rw [← Option.some.inj he, access_newPte]
      · cases he

end Identity

/-- The values of init: the root, and an EPT pointer that is not zero. -/
theorem init_cases {P : Platform} {s : Machine} {k : Nat} (f : Fresh P s k) (fuel : Nat) :
    Died (init P (fuel + 4) s) s (k + 515) ∨
      ((s.constEpt ≠ 0 ∨ eptCheckFeatures s.msrs = false) ∧ init P (fuel + 4) s = .ok (false, s)) ∨
      ∃ s' s'' : Machine, init P (fuel + 4) s = .ok (true, s'') ∧
        Built P k s 512 262144 512 s' ∧ s''.mem = s'.mem ∧ s''.limits = s'.limits ∧
        s''.mtrrs = s'.mtrrs ∧ s''.msrs = s'.msrs ∧ s''.constEpt = P.page k ∧ s''.constEptp ≠ 0 := by
  rw [init]
  by_cases again : s.constEpt ≠ 0
  · rw [if_pos again]
    exact .inr (.inl ⟨.inl again, rfl⟩)
  rw [if_neg again]
  by_cases features : eptCheckFeatures s.msrs = true
  case neg =>
    rw [if_pos (by simpa using features)]
    exact .inr (.inl ⟨.inr (by simpa using features), rfl⟩)
  rw [if_neg (by simpa using features)]
  rcases f.newTable fuel with died | ⟨s', done, b⟩
  · exact .inl (died.bind _)
  · right
    right
    rw [done]
    refine ⟨s', _, rfl, b, rfl, rfl, rfl, rfl, rfl, ?_⟩
    intro zero
    have length := congrArg memoryType zero
    simp (disch := omega) only [memoryType, BitField.get_set_apart, BitField.get_set] at length
    exact absurd length (by decide)

theorem init_succeeds {P : Platform} {s : Machine} {k fuel : Nat} (f : Fresh P s k)
    (enough : 4 ≤ fuel) (holds : 0x1000 * (k + 515 : Nat) ≤ s.limits.poolBigMemEnd)
    (first : s.constEpt = 0) (features : eptCheckFeatures s.msrs = true) :
    ∃ s', init P fuel s = .ok (true, s') := by
  obtain ⟨more, rfl⟩ : ∃ more, fuel = more + 4 := ⟨fuel - 4, by omega⟩
  rcases init_cases f more with died | ⟨refused, -⟩ | ⟨s', s'', done, -⟩
  · have := died.2
    omega
  · rcases refused with again | missing
    · exact absurd first again
    · rw [features] at missing
      cases missing
  · exact ⟨s'', done⟩

/-- What init makes of the constant table. -/
structure IdentityMap (s : Machine) : Prop where
  leaf : ∀ gpa, Below512G gpa → walk s.mem s.constEpt gpa =
    some ⟨BitField.get gpa 12 36, .full, leafType s gpa,
      if gpa.toNat < 0x200000 then .kb4 else .mb2⟩
  levels : ∀ gpa n e, Below512G gpa → n ≤ 3 → entryAt s.mem s.constEpt gpa n = some e →
    access e = .full
  upper : ∀ gpa, ¬ Below512G gpa → walk s.mem s.constEpt gpa = none
  /-- The field of the entry does not cut the type off. -/
  types : s.mtrrData.Valid → ∀ address size,
    (alHvMmGetMemoryType s address size).setWidth 8 =
      Mtrr.calcMtrrMemType s.mtrrData address size

/-- init on a pool of zero pages returns; if it returns 1, const_ept is the identity map. -/
theorem init_identity_map {P : Platform} {s : Machine} {k fuel : Nat} (fresh : Fresh P s k)
    (enough : 4 ≤ fuel) : init P fuel s ≠ .outOfFuel ∧
      ∀ s', init P fuel s = .ok (true, s') → s'.mtrrData = s.mtrrData ∧ IdentityMap s' := by
  obtain ⟨more, rfl⟩ : ∃ more, fuel = more + 4 := ⟨fuel - 4, by omega⟩
  rcases init_cases fresh more with died | ⟨-, refused⟩ | ⟨s', s'', done, b, mem, -, mtrrs, msrs, root, -⟩
  · rw [died.1]
    exact ⟨nofun, nofun⟩
  · rw [refused]
    refine ⟨nofun, fun s' returned => ?_⟩
    cases returned
  · rw [done]
    refine ⟨nofun, fun s₁ returned => ?_⟩
    obtain rfl : s'' = s₁ := by
      cases returned
      rfl
    have types : s''.mtrrData = s.mtrrData := by
      rw [← b.types, Machine.mtrrData, Machine.mtrrData, mtrrs, msrs]
    have leafTypes : ∀ gpa, leafType s'' gpa = leafType s gpa := by
      intro gpa
      simp only [leafType, alHvMmGetMemoryType, types]
    refine ⟨types, fun gpa low => ?_, fun gpa n e low deep he => ?_, fun gpa high => ?_,
      fun valid address size => ?_⟩
    · rw [mem, root, leafTypes]
      exact b.walk low
    · rw [mem, root] at he
      exact b.access_full low.pml4Index deep he
    · rw [mem, root]
      exact walk_upper b.shaped role_pml4 high
    · exact (Mtrr.calcMtrrMemType_architectural valid address size).truncate

/-- A machine with consecutive pool pages, none of them taken. -/
def coldPlatform : Platform where
  page k := BitVec.ofNat 36 (k + 1)
  distinct j k hj hk same := by
    have bound : poolPages = 2560 := rfl
    have := congrArg BitVec.toNat same
    simp only [BitVec.toNat_ofNat] at this
    omega
  nonzero k hk zero := by
    have bound : poolPages = 2560 := rfl
    have := congrArg BitVec.toNat zero
    simp only [BitVec.ofNat_eq_ofNat, BitVec.toNat_ofNat] at this
    omega

def coldMachine : Machine where
  mem _ _ := 0
  limits := ⟨0, Pool.poolSize⟩
  msrs a := if a = IA32_VMX_EPT_VPID_CAP then 0x14041
    else if a = Mtrr.IA32_MTRR_DEF_TYPE then 0xC06 else 0
  mtrrs := none
  constEpt := 0
  constEptp := 0

theorem coldMachine_fresh : Fresh coldPlatform coldMachine 0 :=
  ⟨Nat.zero_le _, rfl, ⟨by decide, Int.le_refl _⟩, fun _ _ _ _ => rfl⟩

theorem init_identity_map_cold :
    ∃ s', init coldPlatform 4 coldMachine = .ok (true, s') ∧ IdentityMap s' := by
  obtain ⟨s', done⟩ := init_succeeds coldMachine_fresh (Nat.le_refl 4) (by decide) rfl (by decide)
  exact ⟨s', done, ((init_identity_map coldMachine_fresh (Nat.le_refl 4)).2 s' done).2⟩

end LMalz.Ept
