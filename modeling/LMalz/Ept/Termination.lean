import LMalz.Ept.Histories

/- set_pte ends: below 512GB with the entry set, from 512GB on when the pool is used up. -/
namespace LMalz.Ept
open Transition

/-- Three copies for each object that need_remap looks at, const_ept included, and one new table. -/
def pagesBound (X : EptCls) (s : Machine) : Nat := 3 * (X.sources s.constEpt).length + 1

section Calls
variable (P : Platform) (fuel : Nat) (X : EptCls) (gpa : BitVec 64) (pte : Entry) (s : Machine)

/-- set_pte returns 1 with the entry set, or 0 with the translations as they were, and takes a
bounded number of pages. -/
def Settles : Prop :=
  ∃ b s', setPte P fuel X gpa pte s = .ok (b, s') ∧
    s'.limits.poolUsable ≤ s.limits.poolUsable + 0x1000 * (pagesBound X s : Int) ∧
    (b = true ∧ getPte s' X gpa = pte ∨
      b = false ∧ ∀ a, walk s'.mem X.eptPml4 a = walk s.mem X.eptPml4 a)

/-- The pool does not hold the pages that a call may take. -/
def Short : Prop :=
  s.limits.poolBigMemEnd < s.limits.poolUsable + 0x1000 * (pagesBound X s : Int)

end Calls

section Ends
variable {P : Platform} {fuel : Nat} {X : EptCls} {others : List Frame} {gpa : BitVec 64} {pte : Entry}
  {s : Machine} {role : Frame → Option (List Index)} {k : Nat}

theorem Tables.poolSound (h : Tables P s role k) : s.PoolSound := by
  have usable := h.usable
  have bound := h.bound
  have size : Pool.poolSize = 0x1000 * poolPages := rfl
  exact ⟨by omega, by omega, h.top.2⟩

theorem Tables.setPte_ends (h : Tables P s role k) (enough : poolPages + 2 ≤ fuel) :
    setPte P fuel X gpa pte s ≠ .outOfFuel := by
  have left := pagesLeft_le h.poolSound
  exact (Ept.setPte_ends P X gpa pte fuel h.poolSound (by omega)).stops

theorem Chained.setPte_returns (x : Chained P X others s role k) (low : Below512G gpa)
    (enough : poolPages + 2 ≤ fuel) (pte : Entry) :
    (∃ s', setPte P fuel X gpa pte s = .ok (true, s') ∧ getPte s' X gpa = pte ∧
      s'.limits.poolUsable ≤ s.limits.poolUsable + 0x1000 * (pagesBound X s : Int) ∧
      s'.limits.poolBigMemEnd = s.limits.poolBigMemEnd) ∨
    setPte P fuel X gpa pte s = .killed ∧ Short X s := by
  have usable := x.tables.usable
  have keeps : Keeps P X others gpa pte fun _ _ => True :=
    ⟨fun _ _ _ _ _ _ _ _ _ _ => trivial, fun _ _ _ _ _ _ _ _ _ _ _ _ _ => trivial⟩
  rcases x.setPte_outcome keeps fuel low.pml4Index trivial with
    stops | died | ⟨t, role', k', g, reached, -, grown, done⟩
  · exact absurd stops (x.tables.setPte_ends enough)
  · refine .inr ⟨died.1, ?_⟩
    have short := died.2
    rw [Short, pagesBound]
    omega
  · refine .inl ⟨_, done, reached.getPte low.pml4Index pte, ?_, grown.upper⟩
    have after := reached.tables.usable
    have pages := grown.pages
    change t.limits.poolUsable ≤ _
    rw [pagesBound]
    omega

theorem Chained.settles (x : Chained P X others s role k) (low : Below512G gpa)
    (enough : poolPages + 2 ≤ fuel) : Settles P fuel X gpa pte s ∨
      setPte P fuel X gpa pte s = .killed ∧ Short X s := by
  refine (x.setPte_returns low enough pte).imp_left ?_
  rintro ⟨s', done, entry, pages, -⟩
  exact ⟨true, s', done, pages, .inl ⟨rfl, entry⟩⟩

/-- From 512GB on a call never returns. -/
theorem Among.not_settles (x : Among P X others s role k) (high : pml4Index gpa ≠ 0) :
    ¬ Settles P fuel X gpa pte s := by
  rintro ⟨b, s', done, -⟩
  rcases x.setPte_high high pte fuel with stops | killed
  · rw [stops] at done
    cases done
  · rw [killed] at done
    cases done

theorem Among.setPteAccess_high (x : Among P X others s role k) (high : pml4Index gpa ≠ 0)
    (a : Access) (r : Bool × Machine) : setPteAccess P fuel X gpa a s ≠ .ok r := by
  obtain ⟨pte, t, start, same⟩ := setPteAccess_eq P fuel X gpa a s
  have among : Among P X others t role k := by
    rcases start with rfl | rfl
    · exact x
    · exact ⟨x.tables.latch, x.root, x.placed, x.sources⟩
  rw [same]
  rcases among.setPte_high high (setAccess pte a) fuel with stops | killed
  · rw [stops]
    exact nofun
  · rw [killed]
    exact nofun

end Ends

/-- set_pte on any object that a history has made, at any address of 48 bits: the recursion ends,
and it settles exactly below 512GB, if the pool holds the pages. -/
theorem setPte_settles_iff {P : Platform} {fuel₀ fuel : Nat} {sys₀ sys : System} {es : List Event}
    {X : EptCls} (ready : System.Ready P fuel₀ sys₀) (inited : 4 ≤ fuel₀)
    (run : Run (Step P fuel₀) sys₀ es sys) (known : X ∈ sys.objects) {gpa : BitVec 64}
    (fits : gpa.toNat < 2^48) (pte : Entry) (enough : poolPages + 2 ≤ fuel) :
    setPte P fuel X gpa pte sys.machine ≠ .outOfFuel ∧
    (Settles P fuel X gpa pte sys.machine → Below512G gpa) ∧
    (Below512G gpa → Settles P fuel X gpa pte sys.machine ∨
      setPte P fuel X gpa pte sys.machine = .killed ∧ Short X sys.machine) := by
  obtain ⟨role, k, sound⟩ := System.Sound.run ready inited run
  have x := sound.chained known
  refine ⟨x.tables.setPte_ends enough, fun settles => ?_, fun low => x.settles low enough⟩
  by_contra high
  rw [Below512G.iff fits] at high
  exact x.toAmong.not_settles high settles

theorem setPte_settles_iff_first_page : ∃ s₀ A s,
    Run (Step coldPlatform 6) ⟨s₀, []⟩ [.newClone none] ⟨s, [A]⟩ ∧
    Settles coldPlatform (poolPages + 2) A 0 0 s := by
  obtain ⟨s₀, A, s, role, ready, made, v, upper⟩ := System.cold_clone (show 4 ≤ 6 by omega)
  have run : Run (Step coldPlatform 6) ⟨s₀, []⟩ [.newClone none] ⟨s, [A]⟩ :=
    .cons (.newClone (fun c none => nomatch none) made) (.nil _)
  have low : Below512G 0 := (by decide : (0 : BitVec 64).toNat < 2^39)
  refine ⟨s₀, A, s, run, ?_⟩
  rcases (setPte_settles_iff ready (by omega) run List.mem_cons_self (by decide) 0
    (Nat.le_refl (poolPages + 2))).2.2 low with settles | ⟨-, short⟩
  · exact settles
  · have usable := v.tables.usable
    have size : Pool.poolSize = 0xA00000 := rfl
    have short : Short A s := short
    rw [Short, pagesBound, EptCls.sources_of_parent v.parent, List.length_singleton] at short
    omega

/-- The first address that the first pml4e does not cover. -/
theorem setPte_killed_512G : ∃ s₀ A s, System.Ready coldPlatform 6 ⟨s₀, []⟩ ∧
    Run (Step coldPlatform 6) ⟨s₀, []⟩ [.newClone none] ⟨s, [A]⟩ ∧ ¬ Short A s ∧
    ∀ fuel, poolPages + 2 ≤ fuel → setPte coldPlatform fuel A 0x8000000000 0 s = .killed ∧
      ¬ Settles coldPlatform fuel A 0x8000000000 0 s := by
  obtain ⟨s₀, A, s, role, ready, made, v, upper⟩ := System.cold_clone (show 4 ≤ 6 by omega)
  have high : pml4Index 0x8000000000 ≠ 0 := by decide
  refine ⟨s₀, A, s, ready, .cons (.newClone (fun c none => nomatch none) made) (.nil _), ?_,
    fun fuel enough => ⟨?_, v.among.not_settles high⟩⟩
  · have usable := v.tables.usable
    have size : Pool.poolSize = 0xA00000 := rfl
    rw [Short, pagesBound, EptCls.sources_of_parent v.parent, List.length_singleton]
    omega
  · exact (v.among.setPte_high high 0 fuel).resolve_left (v.tables.setPte_ends enough)

end LMalz.Ept
