import Mathlib.Logic.Function.Basic
import Mathlib.Data.List.Induction

/- Trees of table pages in a memory. Pages may be shared by several roots; the place of a
page is the list of indices that leads to it. -/
namespace PageTree
open Function (update)

variable {F I E : Type*} {next : E → Option F} {m m' : F → I → E} {r f q : F} {a : I}
  {is js : List I} {e : E} {page : I → E}

/-- The table reached from `r` by the indices. -/
def table (next : E → Option F) (m : F → I → E) (r : F) : List I → Option F
  | [] => some r
  | a :: is => (next (m r a)).bind fun f => table next m f is

/-- The entry with index `a` of the table reached by the indices. -/
def entry (next : E → Option F) (m : F → I → E) (r : F) (is : List I) (a : I) : Option E :=
  (table next m r is).map fun f => m f a

theorem table_append : table next m r (is ++ js) =
    (table next m r is).bind fun f => table next m f js := by
  induction is generalizing r with
  | nil => rfl
  | cons a is ih =>
      simp only [List.cons_append, table]
      cases next (m r a) with
      | none => rfl
      | some f => exact ih

theorem table_snoc : table next m r (is ++ [a]) =
    (table next m r is).bind fun f => next (m f a) := by
  rw [table_append]
  congr
  funext f
  simp [table]

/-- The way to a table consults one entry of each page before it. -/
theorem table_congr_next (same : ∀ js b ks, is = js ++ b :: ks → ∀ f, table next m r js = some f →
    next (m' f b) = next (m f b)) : table next m' r is = table next m r is := by
  induction is generalizing r with
  | nil => rfl
  | cons a is ih =>
      have first : next (m' r a) = next (m r a) := same [] a is rfl r rfl
      simp only [table, first]
      cases child : next (m r a) with
      | none => rfl
      | some f =>
          refine ih ?_
          intro js b ks split g hg
          refine same (a :: js) b ks (by rw [split, List.cons_append]) g ?_
          simp only [table, child]
          exact hg

theorem table_congr (same : ∀ js b ks, is = js ++ b :: ks → ∀ f, table next m r js = some f →
    m' f b = m f b) : table next m' r is = table next m r is :=
  table_congr_next fun js b ks split f hf => congrArg next (same js b ks split f hf)

/-- Every page has one place: entries of tables above depth `d` point to pages whose place
is one index further. -/
def Typed (next : E → Option F) (d : Nat) (role : F → Option (List I)) (m : F → I → E) : Prop :=
  ∀ f is a g, role f = some is → is.length < d → next (m f a) = some g → role g = some (is ++ [a])

section Roles
variable {d : Nat} {role : F → Option (List I)}

theorem Typed.role_table {pre : List I} (h : Typed next d role m) (hr : role r = some pre)
    (short : pre.length + is.length ≤ d) (hf : table next m r is = some f) :
    role f = some (pre ++ is) := by
  induction is generalizing r pre with
  | nil =>
      obtain rfl : r = f := Option.some.inj hf
      simpa using hr
  | cons a is ih =>
      simp only [List.length_cons] at short
      simp only [table] at hf
      cases child : next (m r a) with
      | none => simp [child] at hf
      | some g =>
          rw [child] at hf
          have hg := h r pre a g hr (by omega) child
          have := ih hg (by simp only [List.length_append, List.length_singleton]; omega) hf
          simpa using this

end Roles

section Graft
variable [DecidableEq F] [DecidableEq I]

/-- A new page `q` is filled and hung into entry `a` of table `f`, which becomes `e`. -/
def graft (m : F → I → E) (f : F) (a : I) (e : E) (q : F) (page : I → E) : F → I → E :=
  update (update m q page) f (update (m f) a e)

theorem graft_entry : graft m f a e q page f a = e := by
  simp [graft]

theorem graft_sibling {b : I} (other : b ≠ a) : graft m f a e q page f b = m f b := by
  simp [graft, other]

theorem graft_page (other : q ≠ f) : graft m f a e q page q = page := by
  simp [graft, other]

theorem graft_frame {g : F} (hf : g ≠ f) (hq : g ≠ q) : graft m f a e q page g = m g := by
  simp [graft, hf, hq]

variable {d : Nat} {role : F → Option (List I)}

theorem Typed.graft (h : Typed next d role m) (hf : role f = some is) (hq : role q = none)
    (entry : ∀ g, next e = some g → g = q)
    (content : is.length + 1 < d → ∀ b g, next (page b) = some g → role g = some (is ++ [a] ++ [b])) :
    Typed next d (update role q (some (is ++ [a]))) (graft m f a e q page) := by
  have qf : q ≠ f := by
    rintro rfl
    rw [hf] at hq
    cases hq
  have old : ∀ g js, role g = some js → g ≠ q ∧ update role q (some (is ++ [a])) g = some js := by
    intro g js hg
    have other : g ≠ q := by
      rintro rfl
      rw [hg] at hq
      cases hq
    exact ⟨other, by rw [Function.update_of_ne other, hg]⟩
  intro g js b c hg short child
  by_cases new : g = q
  · subst new
    rw [Function.update_self] at hg
    obtain rfl := Option.some.inj hg
    rw [graft_page qf] at child
    have deep : is.length + 1 < d := by simpa using short
    exact (old c _ (content deep b c child)).2
  · rw [Function.update_of_ne new] at hg
    by_cases parent : g = f
    · subst parent
      obtain rfl : is = js := Option.some.inj (hf.symm.trans hg)
      by_cases here : b = a
      · subst here
        rw [graft_entry] at child
        rw [entry c child, Function.update_self]
      · rw [graft_sibling here] at child
        exact (old c _ (h g is b c hg short child)).2
    · rw [graft_frame parent new] at child
      exact (old c _ (h g js b c hg short child)).2

section Roots
variable (h : Typed next d role m) (hr : role r = some []) (hf : role f = some is)
  (hq : role q = none)
include h hr hf hq

theorem graft_met {g : F} (hg : table next m r js = some g) (short : js.length ≤ d)
    (apart : js ≠ is ∨ g ≠ f) : graft m f a e q page g = m g := by
  have place := h.role_table hr (by simpa using short) hg
  rw [List.nil_append] at place
  refine graft_frame ?_ ?_
  · rintro rfl
    rcases apart with other | other
    · exact other (Option.some.inj (place.symm.trans hf))
    · exact other rfl
  · rintro rfl
    rw [place] at hq
    cases hq

omit [DecidableEq I] hf in
/-- A page without a place is on no way. -/
theorem fill_table (short : js.length ≤ d + 1) :
    table next (update m q page) r js = table next m r js := by
  refine table_congr fun ks b ls split g hg => ?_
  have bound : ks.length ≤ d := by
    rw [split, List.length_append, List.length_cons] at short
    omega
  have place := h.role_table hr (by simpa using bound) hg
  have other : g ≠ q := by
    rintro rfl
    rw [place] at hq
    cases hq
  rw [Function.update_of_ne other]

/-- A root that does not reach the edited table keeps all its tables. -/
theorem graft_table_unreached (avoid : table next m r is ≠ some f) (short : js.length ≤ d + 1) :
    table next (graft m f a e q page) r js = table next m r js := by
  refine table_congr fun ks b ls split g hg => ?_
  have bound : ks.length ≤ d := by
    rw [split, List.length_append, List.length_cons] at short
    omega
  have apart : ks ≠ is ∨ g ≠ f := by
    by_cases same : ks = is
    · subst same
      refine .inr fun here => avoid ?_
      rw [hg, here]
    · exact .inl same
  rw [graft_met h hr hf hq hg bound apart]

theorem graft_entry_unreached {b : I} (avoid : table next m r is ≠ some f) (short : js.length ≤ d) :
    entry next (graft m f a e q page) r js b = entry next m r js b := by
  rw [entry, entry, graft_table_unreached h hr hf hq avoid (by omega)]
  cases hg : table next m r js with
  | none => rfl
  | some g =>
      have apart : js ≠ is ∨ g ≠ f := by
        by_cases same : js = is
        · subst same
          refine .inr fun here => avoid ?_
          rw [hg, here]
        · exact .inl same
      rw [Option.map_some, Option.map_some, graft_met h hr hf hq hg short apart]

variable (reach : table next m r is = some f) (hung : next e = some q)
  (keeps : is.length + 1 < d → ∀ b, next (page b) = (next (m f a)).bind fun c => next (m c b))
include reach hung keeps

/-- A root that reaches the edited table finds the new page there; if the children of the
old page were kept, it finds all other tables as before. -/
theorem graft_table_reached (short : js.length ≤ d) :
    table next (graft m f a e q page) r js =
      if js = is ++ [a] then some q else table next m r js := by
  have qf : q ≠ f := by
    rintro rfl
    rw [hf] at hq
    cases hq
  induction js using List.reverseRecOn with
  | nil => simp [table]
  | append_singleton ks b ih =>
      rw [List.length_append, List.length_singleton] at short
      rw [table_snoc, table_snoc, ih (by omega)]
      by_cases below : ks = is ++ [a]
      · subst below
        rw [if_pos rfl, if_neg (by simp), table_snoc, reach]
        simp only [Option.bind_some]
        rw [graft_page qf]
        refine keeps ?_ b
        simp only [List.length_append, List.length_singleton] at short
        omega
      · rw [if_neg below]
        by_cases here : ks = is
        · subst here
          rw [reach]
          simp only [Option.bind_some]
          by_cases same : b = a
          · subst same
            rw [if_pos rfl, graft_entry, hung]
          · rw [if_neg (by simpa using same), graft_sibling same]
        · have other : ks ++ [b] ≠ is ++ [a] := fun split => here (List.append_inj' split rfl).1
          rw [if_neg other]
          cases hg : table next m r ks with
          | none => rfl
          | some g =>
              simp only [Option.bind_some]
              rw [graft_met h hr hf hq hg (by omega) (.inl here)]

theorem graft_entry_reached {b : I} (short : js.length ≤ d) :
    entry next (graft m f a e q page) r js b =
      if js = is ∧ b = a then some e
      else if js = is ++ [a] then some (page b) else entry next m r js b := by
  have qf : q ≠ f := by
    rintro rfl
    rw [hf] at hq
    cases hq
  rw [entry, graft_table_reached h hr hf hq reach hung keeps short]
  by_cases below : js = is ++ [a]
  · subst below
    rw [if_pos rfl, if_neg (by simp), if_pos rfl, Option.map_some, graft_page qf]
  · rw [if_neg below]
    by_cases here : js = is
    · subst here
      rw [reach, Option.map_some]
      by_cases same : b = a
      · subst same
        rw [if_pos ⟨rfl, rfl⟩, graft_entry]
      · rw [if_neg fun both => same both.2, if_neg below, graft_sibling same, entry, reach,
          Option.map_some]
    · rw [if_neg fun both => here both.1, if_neg below, entry]
      cases hg : table next m r js with
      | none => rfl
      | some g => rw [Option.map_some, Option.map_some, graft_met h hr hf hq hg short (.inl here)]

end Roots

end Graft

end PageTree
