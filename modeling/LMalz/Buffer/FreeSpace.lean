import LMalz.Buffer.Existing
import Mathlib.Algebra.BigOperators.Group.List.Basic

/- The bytes of free chunks, and what PrepareData does to them. -/
namespace LMalz.Buffer
open Bytes (Memory)
open Transition (Run)

section Memory
variable (bufferSize : Int) (m : Memory)

/-- The byte at `x` belongs to a chunk that is not in use, headers included. -/
def FreeByte (x : Int) : Prop :=
  ∃ hs, Walk m dataArea hs bufferSize ∧
    ∃ h ∈ hs, prepare m h = 0 ∧ h ≤ x ∧ x < h + dataHeader + size m h

/-- Adjacent chunks that are not in use would hold `n` bytes once they are merged. -/
def Fits (n : Nat) : Prop :=
  ∃ hs run, Walk m dataArea hs bufferSize ∧ run <:+: hs ∧ run ≠ [] ∧
    (∀ h ∈ run, prepare m h = 0) ∧
    (n : Int) ≤ (run.map (size m)).sum + dataHeader * (run.length - 1)

def LastFree : Prop :=
  ∃ hs h, Walk m dataArea (hs ++ [h]) bufferSize ∧ prepare m h = 0

end Memory

section Walk
variable {m : Memory} {i j e x a : Int} {hs ks run : List Int} {n : Nat} {k : Int}

def weight (m : Memory) (hs : List Int) : Int := (hs.map fun h => size m h + dataHeader).sum

theorem weight_eq : weight m hs = (hs.map (size m)).sum + dataHeader * hs.length := by
  rw [weight, List.sum_map_add, List.map_const', List.sum_replicate, nsmul_eq_mul, mul_comm]

theorem Walk.weight (w : Walk m i hs e) : weight m hs = e - i := by
  induction w with
  | done e => exact (Int.sub_self e).symm
  | @next i e hs nonneg rest ih =>
      have cons : LMalz.Buffer.weight m (i :: hs) =
          size m i + dataHeader + LMalz.Buffer.weight m hs := List.sum_cons
      rw [cons, ih]
      generalize size m i = k
      omega

theorem Walk.append : Walk m i (hs ++ ks) e ↔ ∃ j, Walk m i hs j ∧ Walk m j ks e := by
  induction hs generalizing i with
  | nil =>
      constructor
      · intro w
        exact ⟨i, .done i, w⟩
      · rintro ⟨j, first, rest⟩
        cases first
        exact rest
  | cons h hs ih =>
      constructor
      · rintro (_ | ⟨nonneg, rest⟩)
        obtain ⟨j, first, rest⟩ := ih.mp rest
        exact ⟨j, .next nonneg first, rest⟩
      · rintro ⟨j, first, rest⟩
        cases first with
        | next nonneg first => exact .next nonneg (ih.mpr ⟨j, first, rest⟩)

theorem Walk.header (w : Walk m i hs e) {h : Int} (hh : h ∈ hs) :
    i ≤ h ∧ 0 ≤ size m h ∧ h + dataHeader + size m h ≤ e := by
  have header : dataHeader = 10 := rfl
  induction w with
  | done e => cases hh
  | next nonneg rest ih =>
      rcases List.mem_cons.mp hh with rfl | later
      · exact ⟨Int.le_refl _, nonneg, rest.le⟩
      · have facts := ih later
        omega

theorem Walk.cover (w : Walk m i hs e) (low : i ≤ x) (high : x < e) :
    ∃ h ∈ hs, h ≤ x ∧ x < h + dataHeader + size m h := by
  induction w with
  | done e => omega
  | @next i e hs nonneg rest ih =>
      by_cases here : x < i + dataHeader + size m i
      · exact ⟨i, List.mem_cons_self, low, here⟩
      · obtain ⟨h, hh, facts⟩ := ih (by omega) high
        exact ⟨h, List.mem_cons_of_mem _ hh, facts⟩

/-- Bytes of free chunks without a gap, some of them in the run just passed, lie in one run of
adjacent free chunks. -/
theorem Walk.run_of_bytes (w : Walk m i hs e) (passed : Walk m j run i)
    (free : ∀ h ∈ run, prepare m h = 0) (some : 0 < k)
    (bytes : ∀ x, a ≤ x → x < a + k → (j ≤ x ∧ x < i) ∨
      ∃ h ∈ hs, prepare m h = 0 ∧ h ≤ x ∧ x < h + dataHeader + size m h) :
    ∃ r, r <:+: run ++ hs ∧ (∀ h ∈ r, prepare m h = 0) ∧ k ≤ LMalz.Buffer.weight m r := by
  have header : dataHeader = 10 := rfl
  induction w generalizing j run with
  | done e =>
      refine ⟨run, List.infix_append' [] run [], free, ?_⟩
      rw [passed.weight]
      have first := bytes a (by omega) (by omega)
      have last := bytes (a + k - 1) (by omega) (by omega)
      simp only [List.not_mem_nil, false_and, exists_false, or_false] at first last
      omega
  | @next i e hs nonneg rest ih =>
      by_cases idle : prepare m i = 0
      · have longer : Walk m j (run ++ [i]) (i + dataHeader + size m i) :=
          Walk.append.mpr ⟨i, passed, .next nonneg (.done _)⟩
        have idle_all : ∀ h ∈ run ++ [i], prepare m h = 0 := by
          intro h hh
          rcases List.mem_append.mp hh with old | new
          · exact free h old
          · rwa [List.mem_singleton.mp new]
        have start := passed.le
        obtain ⟨r, inside, facts⟩ := ih longer idle_all fun x low high => by
          rcases bytes x low high with before | ⟨h, hh, idle', facts⟩
          · exact .inl (by omega)
          · rcases List.mem_cons.mp hh with rfl | later
            · exact .inl (by omega)
            · exact .inr ⟨h, later, idle', facts⟩
        exact ⟨r, by simpa using inside, facts⟩
      · have behind : ∀ h ∈ i :: hs, prepare m h = 0 → h ∈ hs ∧ i < h := by
          intro h hh idle'
          rcases List.mem_cons.mp hh with rfl | later
          · exact absurd idle' idle
          · have low := (rest.header later).1
            exact ⟨later, by omega⟩
        have gap : ¬ (a ≤ i ∧ i < a + k) := by
          rintro ⟨low, high⟩
          rcases bytes i low high with before | ⟨h, hh, idle', facts⟩
          · omega
          · have := (behind h hh idle').2
            omega
        by_cases before : a + k ≤ i
        · refine ⟨run, List.infix_append' [] run _, free, ?_⟩
          rw [passed.weight]
          rcases bytes a (by omega) (by omega) with first | ⟨h, hh, idle', facts⟩
          · omega
          · have := (behind h hh idle').2
            omega
        · have none : ∀ h ∈ ([] : List Int), prepare m h = 0 := fun _ => nofun
          obtain ⟨r, inside, facts⟩ := ih (.done _) none fun x low high => by
            rcases bytes x low high with first | ⟨h, hh, idle', facts⟩
            · omega
            · exact .inr ⟨h, (behind h hh idle').1, idle', facts⟩
          exact ⟨r, inside.trans ⟨run ++ [i], [], by simp⟩, facts⟩

theorem Walk.freeByte_iff (w : Walk m dataArea hs e) : FreeByte e m x ↔
    ∃ h ∈ hs, prepare m h = 0 ∧ h ≤ x ∧ x < h + dataHeader + size m h := by
  constructor
  · rintro ⟨ks, v, facts⟩
    rwa [w.unique v]
  · exact fun facts => ⟨hs, w, facts⟩

/-- A request fits when as many bytes without a gap are free, with one more header. -/
theorem Walk.fits_iff (w : Walk m dataArea hs e) :
    Fits e m n ↔ ∃ a, ∀ x, a ≤ x → x < a + (n + dataHeader) → FreeByte e m x := by
  have header : dataHeader = 10 := rfl
  constructor
  · rintro ⟨ks, run, v, ⟨front, back, rfl⟩, some, free, fits⟩
    obtain ⟨b, v', -⟩ := Walk.append.mp v
    obtain ⟨a, -, middle⟩ := Walk.append.mp v'
    have width := middle.weight
    rw [weight_eq] at width
    have pos := List.length_pos_iff.mpr some
    refine ⟨a, fun x low high => ?_⟩
    have inside : x < b := by
      rw [header] at fits width
      omega
    obtain ⟨h, hh, here⟩ := middle.cover low inside
    exact ⟨_, v, h, by simp [hh], free h hh, here⟩
  · rintro ⟨a, bytes⟩
    have none : ∀ h ∈ ([] : List Int), prepare m h = 0 := fun _ => nofun
    obtain ⟨run, inside, free, wide⟩ := w.run_of_bytes (a := a) (k := n + dataHeader) (.done _)
      none (by omega) fun x low high => .inr (w.freeByte_iff.mp (bytes x low high))
    rw [weight_eq] at wide
    have pos : run ≠ [] := by
      rintro rfl
      simp at wide
      omega
    refine ⟨hs, run, w, by simpa using inside, pos, free, ?_⟩
    rw [header] at wide ⊢
    omega

end Walk

/-- The bytes of the free chunks that lie one behind the other from `i` on. -/
def FreeAt : Int → List Chunk → Int → Prop
  | _, [], _ => False
  | i, c :: cs, x => (c.use = .free ∧ i ≤ x ∧ x < i + dataHeader + c.size) ∨
      FreeAt (i + dataHeader + c.size) cs x

def stopOf : Int → List Chunk → Int
  | i, [] => i
  | i, c :: cs => stopOf (i + dataHeader + c.size) cs

section Chunks
variable {m : Memory} {i j e x a : Int} {n : Nat} {cs ds pre rest : List Chunk} {c d : Chunk}

theorem freeAt_append : FreeAt i (cs ++ ds) x ↔ FreeAt i cs x ∨ FreeAt (stopOf i cs) ds x := by
  induction cs generalizing i with
  | nil => simp [FreeAt, stopOf]
  | cons c cs ih => simp only [List.cons_append, FreeAt, stopOf, ih, or_assoc]

theorem stopOf_append : stopOf i (cs ++ ds) = stopOf (stopOf i cs) ds := by
  induction cs generalizing i with
  | nil => rfl
  | cons c cs ih => exact ih

theorem stopOf_snoc (at_pre : i = stopOf j pre) :
    i + dataHeader + c.size = stopOf j (pre ++ [c]) := by
  rw [stopOf_append, ← at_pre]
  rfl

theorem FreeAt.inside (h : FreeAt i cs x) : i ≤ x ∧ x < stopOf i cs := by
  have header : dataHeader = 10 := rfl
  have le : ∀ {i : Int} {cs : List Chunk}, i ≤ stopOf i cs := by
    intro i cs
    induction cs generalizing i with
    | nil => exact Int.le_refl i
    | cons c cs ih =>
        have rest : i + dataHeader + c.size ≤ stopOf (i + dataHeader + c.size) cs := ih
        simp only [stopOf]
        omega
  induction cs generalizing i with
  | nil => cases h
  | cons c cs ih =>
      have behind : i + dataHeader + c.size ≤ stopOf (i + dataHeader + c.size) cs := le
      rcases h with here | later
      · simp only [stopOf]
        omega
      · have facts := ih later
        simp only [stopOf]
        omega

theorem Use.Holds.prepare_iff {u : Use} {capacity : Nat} (h : u.Holds m i capacity) :
    prepare m i = 0 ↔ u = .free := by
  constructor
  · intro idle
    by_contra busy
    exact h.prepare_ne busy idle
  · rintro rfl
    exact h.2

theorem Layout.freeAt_iff (h : Layout m i cs e) : FreeAt i cs x ↔
    ∃ j ∈ headersOf i cs, prepare m j = 0 ∧ j ≤ x ∧ x < j + dataHeader + size m j := by
  induction cs generalizing i with
  | nil => simp [FreeAt, headersOf]
  | cons c cs ih =>
      obtain ⟨here, after⟩ := h
      simp only [FreeAt, headersOf, List.mem_cons, exists_eq_or_imp, ih after,
        here.used.prepare_iff, here.sized]

theorem Layout.ends_at (h : Layout m i cs e) : stopOf i cs = e := by
  induction cs generalizing i with
  | nil => exact h
  | cons c cs ih => exact ih h.2

theorem Layout.freeByte_iff (h : Layout m dataArea cs e) : FreeByte e m x ↔ FreeAt dataArea cs x :=
  h.walk.freeByte_iff.trans h.freeAt_iff.symm

theorem Layout.fits_iff (h : Layout m dataArea cs e) :
    Fits e m n ↔ ∃ a, ∀ x, a ≤ x → x < a + (n + dataHeader) → FreeAt dataArea cs x := by
  simp only [h.walk.fits_iff, h.freeByte_iff]

theorem Layout.lastFree_iff (h : Layout m dataArea cs e) :
    LastFree e m ↔ FreeAt dataArea cs (e - 1) := by
  have header : dataHeader = 10 := rfl
  rw [← h.freeByte_iff]
  constructor
  · rintro ⟨hs, k, w, idle⟩
    obtain ⟨j, -, last⟩ := Walk.append.mp w
    cases last with
    | next nonneg ends =>
        have whole : 0 = e - (k + dataHeader + size m k) := ends.weight
        exact ⟨_, w, k, by simp, idle, by omega, by omega⟩
  · rintro ⟨hs, w, k, hk, idle, low, high⟩
    obtain ⟨front, back, rfl⟩ := List.append_of_mem hk
    obtain ⟨j, -, rest⟩ := Walk.append.mp w
    cases back with
    | nil => exact ⟨front, k, w, idle⟩
    | cons l back =>
        cases rest with
        | next nonneg rest =>
            have inside := rest.header List.mem_cons_self
            omega

theorem freeAt_merge (free : c.use = .free) (dfree : d.use = .free) :
    FreeAt i (pre ++ c :: d :: rest) x ↔
      FreeAt i (pre ++ ⟨c.size + d.size + 10, .free⟩ :: rest) x := by
  have header : dataHeader = 10 := rfl
  have ends : stopOf i pre + dataHeader + c.size + dataHeader + d.size =
      stopOf i pre + dataHeader + (c.size + d.size + 10 : Nat) := by omega
  simp only [freeAt_append, FreeAt, free, dfree, ends, true_and]
  constructor
  · rintro (before | here | next | behind)
    · exact .inl before
    · exact .inr (.inl (by omega))
    · exact .inr (.inl (by omega))
    · exact .inr (.inr behind)
  · rintro (before | here | behind)
    · exact .inl before
    · by_cases first : x < stopOf i pre + dataHeader + c.size
      · exact .inr (.inl (by omega))
      · exact .inr (.inr (.inl (by omega)))
    · exact .inr (.inr (.inr behind))

theorem stopOf_merge : stopOf i (pre ++ c :: d :: rest) =
    stopOf i (pre ++ ⟨c.size + d.size + 10, .free⟩ :: rest) := by
  have header : dataHeader = 10 := rfl
  have ends : stopOf i pre + dataHeader + c.size + dataHeader + d.size =
      stopOf i pre + dataHeader + (c.size + d.size + 10 : Nat) := by omega
  simp only [stopOf_append, stopOf, ends]

theorem freeAt_of_not_free (used : c.use ≠ .free) (h : FreeAt i (c :: cs) x) : i + dataHeader + c.size ≤ x := by
  rcases h with ⟨free, -⟩ | later
  · exact absurd free used
  · exact later.inside.1

/-- From the chunk at hand on, the chunks passed over do not matter. -/
theorem freeAt_from (at_pre : i = stopOf j pre) (low : i ≤ x) :
    FreeAt j (pre ++ cs) x ↔ FreeAt i cs x := by
  rw [freeAt_append, ← at_pre]
  refine or_iff_right fun before => ?_
  have inside := before.inside
  omega

theorem place_some (at_pre : i = stopOf dataArea pre)
    (found : (place n i pre rest).1.isSome = true) :
    ∃ a, ∀ x, a ≤ x → x < a + (n + dataHeader) → FreeAt dataArea (pre ++ rest) x := by
  induction i, pre, rest using place.induct n with
  | case1 i pre => simp [place] at found
  | case2 i pre c rest free fits | case3 i pre c rest free big fits =>
      refine ⟨i, fun x low high => freeAt_append.mpr (.inr (.inl ⟨free, ?_⟩))⟩
      rw [← at_pre]
      omega
  | case4 i pre c free big fits =>
      rw [place_last free big fits] at found
      cases found
  | case5 i pre c free big fits d rest dfree ih =>
      have dfree := Use.isFree_iff.mp dfree
      rw [place_merge free big fits dfree] at found
      obtain ⟨a, bytes⟩ := ih rfl found
      exact ⟨a, fun x low high => (freeAt_merge free dfree).mpr (bytes x low high)⟩
  | case6 i pre c free big fits d rest dfree ih =>
      rw [place_blocked free big fits fun hd => dfree (Use.isFree_iff.mpr hd)] at found
      simpa using ih (stopOf_snoc at_pre) found
  | case7 i pre c rest used ih =>
      rw [place_busy used] at found
      simpa using ih (stopOf_snoc at_pre) found

/-- What PrepareData leaves when it finds nothing: no gap was wide enough, and what was free
stays free but for the end of the buffer. -/
structure Refuses (n : Nat) (cs cs' : List Chunk) : Prop where
  none : ∀ a, ¬ ∀ x, a ≤ x → x < a + (n + dataHeader) → FreeAt dataArea cs x
  lost : ¬ FreeAt dataArea cs' (stopOf dataArea cs - 1)
  kept : ¬ FreeAt dataArea cs (stopOf dataArea cs - 1) →
    ∀ x, FreeAt dataArea cs' x ↔ FreeAt dataArea cs x

theorem place_none (at_pre : i = stopOf dataArea pre)
    (passed : ∀ a, (∀ x, a ≤ x → x < a + (n + dataHeader) → FreeAt dataArea (pre ++ rest) x) → i ≤ a)
    (ended : rest = [] → ¬ FreeAt dataArea pre (i - 1))
    (missed : (place n i pre rest).1 = none) :
    Refuses n (pre ++ rest) (place n i pre rest).2 := by
  have header : dataHeader = 10 := rfl
  induction i, pre, rest using place.induct n with
  | case1 i pre =>
      simp only [place, List.append_nil] at passed ⊢
      rw [at_pre] at ended
      refine ⟨fun a bytes => ?_, ended rfl, fun _ _ => Iff.rfl⟩
      have low := passed a bytes
      have inside := (bytes a (by omega) (by omega)).inside
      omega
  | case2 i pre c rest free fits =>
      rw [place_divide free fits] at missed
      cases missed
  | case3 i pre c rest free big fits =>
      rw [place_reuse free big fits] at missed
      cases missed
  | case4 i pre c free big fits =>
      have stop : i + dataHeader + c.size = stopOf dataArea (pre ++ [c]) := stopOf_snoc at_pre
      rw [place_last free big fits]
      refine ⟨fun a bytes => ?_, fun last => ?_, fun unused => absurd ?_ unused⟩
      · have low := passed a bytes
        have inside := (bytes (a + (n + dataHeader) - 1) (by omega) (by omega)).inside
        omega
      · rw [← stop] at last
        rcases (freeAt_from at_pre (by omega)).mp last with ⟨used, -⟩ | behind
        · cases used
        · exact behind
      · rw [← stop]
        exact (freeAt_from at_pre (by omega)).mpr (.inl ⟨free, by omega, by omega⟩)
  | case5 i pre c free big fits d rest dfree ih =>
      have dfree := Use.isFree_iff.mp dfree
      have same : ∀ x, FreeAt dataArea (pre ++ c :: d :: rest) x ↔
          FreeAt dataArea (pre ++ ⟨c.size + d.size + 10, .free⟩ :: rest) x :=
        fun x => freeAt_merge free dfree
      have start : ∀ a, (∀ x, a ≤ x → x < a + (n + dataHeader) →
          FreeAt dataArea ([] ++ (pre ++ ⟨c.size + d.size + 10, .free⟩ :: rest)) x) →
          dataArea ≤ a :=
        fun a bytes => (bytes a (by omega) (by omega)).inside.1
      rw [place_merge free big fits dfree] at missed ⊢
      obtain ⟨none, lost, kept⟩ := ih rfl start (by simp) missed
      refine ⟨fun a bytes => none a fun x low high => (same x).mp (bytes x low high), ?_, ?_⟩
      · rw [stopOf_merge]
        exact lost
      · rw [stopOf_merge]
        intro unused x
        exact (kept (fun last => unused ((same _).mpr last)) x).trans (same x).symm
  | case6 i pre c free big fits d rest dfree ih =>
      have used : d.use ≠ .free := fun hd => dfree (Use.isFree_iff.mpr hd)
      have whole : pre ++ [c] ++ d :: rest = pre ++ c :: d :: rest := by simp
      rw [place_blocked free big fits used] at missed ⊢
      rw [whole] at ih
      refine ih (stopOf_snoc at_pre) (fun a bytes => ?_) (by simp) missed
      have low := passed a bytes
      -- a gap from inside the small chunk would reach the one in use behind it
      by_contra short
      have middle := bytes (i + dataHeader + c.size) (by omega) (by omega)
      rcases (freeAt_from at_pre (by omega)).mp middle with here | behind
      · omega
      · have far := freeAt_of_not_free used behind
        omega
  | case7 i pre c rest used ih =>
      have whole : pre ++ [c] ++ rest = pre ++ c :: rest := by simp
      have behind : ∀ x, i ≤ x → FreeAt dataArea (pre ++ c :: rest) x →
          i + dataHeader + c.size ≤ x :=
        fun x low here => freeAt_of_not_free used ((freeAt_from at_pre low).mp here)
      rw [place_busy used] at missed ⊢
      rw [whole] at ih
      refine ih (stopOf_snoc at_pre) (fun a bytes => ?_) (fun none last => ?_) missed
      · exact behind a (passed a bytes) (bytes a (by omega) (by omega))
      · subst none
        have far := behind _ (by omega) last
        omega

end Chunks

/-- PrepareData(n) that turned `m` into `m'` finds a region whenever there is one, and one that
finds none reserves nothing: the same bytes are free, and whatever fitted still does. -/
structure Complete (bufferSize : Int) (n : Nat) (m : Memory) (r : Option Int) (m' : Memory) :
    Prop where
  found : r.isSome = true ↔ Fits bufferSize m n
  kept : r = none → ∀ x, FreeByte bufferSize m' x ↔ FreeByte bufferSize m x
  later : r = none → ∀ k < 2^16, Fits bufferSize m k →
    ∃ fuel data m'', prepareData bufferSize k fuel m' = some (some data, m'')

section Complete
variable {bufferSize : Int} {n : Nat} {cs : List Chunk} {m : Memory}

theorem place_refuses (missed : (place n dataArea [] cs).1 = none) :
    Refuses n cs (place n dataArea [] cs).2 := by
  have header : dataHeader = 10 := rfl
  have start : dataArea = stopOf dataArea [] := rfl
  have refuses : Refuses n ([] ++ cs) (place n dataArea [] cs).2 := by
    refine place_none start (fun a bytes => ?_) (fun _ => id) missed
    exact (bytes a (by omega) (by omega)).inside.1
  exact refuses

theorem Layout.prepareData_fits (h : Layout m dataArea cs bufferSize) (small : bufferSize < 2^31)
    (short : n < 2^16) (fits : Fits bufferSize m n) :
    ∃ fuel data m', prepareData bufferSize n fuel m = some (some data, m') := by
  obtain ⟨m', ⟨fuel, ran⟩, -⟩ := place_refined small short (Layout.nil _ _) h
  cases found : (place n dataArea [] cs).1 with
  | none =>
      obtain ⟨a, bytes⟩ := h.fits_iff.mp fits
      exact absurd bytes ((place_refuses found).none a)
  | some data =>
      rw [found] at ran
      exact ⟨fuel, data, m', ran⟩

theorem Layout.complete_iff (h : Layout m dataArea cs bufferSize) (small : bufferSize < 2^31)
    (short : n < 2^16) {fuel : Nat} {r : Option Int} {m' : Memory}
    (ran : prepareData bufferSize n fuel m = some (r, m')) :
    Complete bufferSize n m r m' ↔ Fits bufferSize m n ∨ ¬ LastFree bufferSize m := by
  obtain ⟨m'', ran', laid, -⟩ := place_refined small short (Layout.nil _ _) h
  obtain ⟨rfl, rfl⟩ := Prod.mk.inj (Loop.Returns.unique ⟨fuel, ran⟩ ran')
  cases found : (place n dataArea [] cs).1 with
  | some data =>
      have fits : Fits bufferSize m n := by
        have start : dataArea = stopOf dataArea [] := rfl
        exact h.fits_iff.mpr (place_some start (Option.isSome_iff_exists.mpr ⟨data, found⟩))
      refine iff_of_true ⟨iff_of_true rfl fits, nofun, nofun⟩ (.inl fits)
  | none =>
      obtain ⟨none, lost, kept⟩ := place_refuses found
      rw [h.ends_at] at lost kept
      have unfit : ¬ Fits bufferSize m n := by
        rw [h.fits_iff]
        rintro ⟨a, bytes⟩
        exact none a bytes
      constructor
      · intro complete
        refine .inr fun last => lost (laid.freeByte_iff.mp ?_)
        exact (complete.kept rfl _).mpr (h.freeByte_iff.mpr (h.lastFree_iff.mp last))
      · rintro (fits | unused)
        · exact absurd fits unfit
        · rw [h.lastFree_iff] at unused
          have same := kept unused
          refine ⟨iff_of_false nofun unfit, fun _ x => ?_, fun _ k limit fits => ?_⟩
          · rw [laid.freeByte_iff, h.freeByte_iff, same]
          · refine laid.prepareData_fits small limit (laid.fits_iff.mpr ?_)
            simpa only [same] using h.fits_iff.mp fits

end Complete

/-- In every state reached, PrepareData ends; it is complete and a failed one reserves nothing
just when the request fits or the last chunk is in use. -/
theorem prepareData_complete_iff {bufferSize : Nat} {s t : State} {es : List Event} {n : Nat}
    (low : headSize ≤ bufferSize) (high : bufferSize < 2^31) (start : Initial bufferSize s)
    (run : Run (Step bufferSize) s es t) (short : n < 2^16) :
    (∃ fuel r, prepareData bufferSize n fuel t.mem = some r) ∧
      ∀ fuel r m, prepareData bufferSize n fuel t.mem = some (r, m) →
        (Complete bufferSize n t.mem r m ↔ Fits bufferSize t.mem n ∨ ¬ LastFree bufferSize t.mem) := by
  have small : (bufferSize : Int) < 2^31 := by omega
  obtain ⟨cs, h⟩ := run.invariant (I := fun s => ∃ cs, Tiled bufferSize s cs)
    (tiled_step small) ⟨_, start.tiled low high⟩
  obtain ⟨m', ⟨fuel, ran⟩, -⟩ := place_refined small short (Layout.nil _ _) h.1
  exact ⟨⟨fuel, _, ran⟩, fun fuel r m ran => h.1.complete_iff small short ran⟩

theorem prepareData_complete_fresh :
    ∃ fuel data m, prepareData 0x1000 16 fuel (freshState 0x1000).mem = some (some data, m) ∧
      Complete (0x1000 : Nat) 16 (freshState 0x1000).mem (some data) m := by
  have start := freshState_initial 0x1000
  have tiled := start.tiled (by decide) (by decide)
  obtain ⟨-, every⟩ := prepareData_complete_iff (n := 16) (by decide) (by decide) start (.nil _)
    (by decide)
  have fits : Fits (0x1000 : Nat) (freshState 0x1000).mem 16 := by
    refine tiled.1.fits_iff.mpr ⟨dataArea, fun x low high => .inl ⟨rfl, low, ?_⟩⟩
    have header : dataHeader = 10 := rfl
    have area : dataArea = 3 := rfl
    simp only
    omega
  obtain ⟨fuel, data, m, ran⟩ := tiled.1.prepareData_fits (by decide) (by decide) fits
  exact ⟨fuel, data, m, ran, (every fuel _ m ran).mpr (.inl fits)⟩

/-- A request for more than the one chunk of a new buffer leaves the chunk marked: the next
request for a single byte fails. -/
theorem prepareData_leaks :
    ∃ fuel m fuel' m', prepareData 64 100 fuel (freshState 64).mem = some (none, m) ∧
      Fits 64 (freshState 64).mem 1 ∧ prepareData 64 1 fuel' m = some (none, m') ∧
      ¬ Complete 64 100 (freshState 64).mem none m := by
  have tiled := (freshState_initial 64).tiled (by decide) (by decide)
  have fits : Fits (64 : Nat) (freshState 64).mem 1 := by
    refine tiled.1.fits_iff.mpr ⟨dataArea, fun x low high => .inl ⟨rfl, low, ?_⟩⟩
    have header : dataHeader = 10 := rfl
    have area : dataArea = 3 := rfl
    simp only
    omega
  obtain ⟨m, ⟨fuel, ran⟩, laid, -⟩ := place_refined (n := 100) (by decide) (by decide)
    (Layout.nil _ _) tiled.1
  rw [place_last rfl (by decide) (by decide)] at ran laid
  obtain ⟨m', ⟨fuel', ran'⟩, -⟩ := place_refined (n := 1) (by decide) (by decide)
    (Layout.nil _ _) laid
  rw [List.nil_append, place_busy (by simp), place] at ran'
  refine ⟨fuel, m, fuel', m', ran, fits, ran', fun complete => ?_⟩
  obtain ⟨fuel, data, m'', ran⟩ := complete.later rfl 1 (by decide) fits
  have same := Loop.Returns.unique ⟨fuel, ran⟩ ⟨fuel', ran'⟩
  cases same

end LMalz.Buffer
