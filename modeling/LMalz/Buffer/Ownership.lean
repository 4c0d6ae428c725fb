import LMalz.Buffer.Cells

/- Which call owns which chunk, what each call knows of its own chunks, and how a step may
change the chunks without disturbing the other calls. -/
namespace LMalz.Buffer
open Bytes (Memory SameOn)

namespace Call

/-- The chunks a call owns. -/
def tokens : Call → List (Int × Role)
  | .send n _ pc => match pc with
      | .testDivide i | .divideLength i | .testFit i | .findSecond i | .claimSecond i _
      | .restart i | .release i | .storeLength i => [(i, .busy 0)]
      | .divideValid i | .dividePrepare i | .divideRead i | .divideSize i _ | .shrink i =>
          [(i, .busy (n + 10))]
      | .readSecond i second | .addSecond i second _ => [(second, .busy 0), (i, .busy 0)]
      | .fill data => [(data - dataHeader, .filling)]
      | .claim _ | .advance _ | .refused | .count | .sent => []
  | .read pc => match pc with
      | .readLength i | .handle i _ => [(i, .taken)]
      | .enter | .undo | .probe _ | .advance _ | .done => []

/-- What a call has read or stored in the chunks it owns. -/
def Knows (bufferSize : Int) (m : Memory) : Call → Prop
  | .send n ws pc => n < 2^16 ∧ (∀ w ∈ ws, w.1 < n) ∧
      match pc with
      | .divideLength i | .divideValid i => n + dataHeader ≤ size m i
      | .dividePrepare i => n + dataHeader ≤ size m i ∧ valid m (i + dataHeader + n) = 0
      | .divideRead i => n + dataHeader ≤ size m i ∧ valid m (i + dataHeader + n) = 0 ∧
          prepare m (i + dataHeader + n) = 0
      | .divideSize i rest => n + dataHeader ≤ size m i ∧ valid m (i + dataHeader + n) = 0 ∧
          prepare m (i + dataHeader + n) = 0 ∧ rest = size m i - n - dataHeader
      | .shrink i => n + dataHeader ≤ size m i ∧ valid m (i + dataHeader + n) = 0 ∧
          prepare m (i + dataHeader + n) = 0 ∧
          size m (i + dataHeader + n) = size m i - n - dataHeader
      | .storeLength i => n ≤ size m i
      | .claimSecond i second => second = i + dataHeader + size m i ∧ second < bufferSize
      | .readSecond i second => second = i + dataHeader + size m i
      | .addSecond i second more => second = i + dataHeader + size m i ∧
          more = size m second + dataHeader
      | .advance i => i < bufferSize
      | .fill data => length m (data - dataHeader) = n
      | _ => True
  | .read pc => match pc with
      | .handle i len => length m i = len
      | .advance i => i < bufferSize
      | _ => True

/-- A call keeps what it knows while its own chunks keep their bytes. -/
theorem Knows.frame {bufferSize : Int} {m m' : Memory} {p : Call} (k : p.Knows bufferSize m)
    (same : ∀ t ∈ p.tokens, SameOn m m' t.1 (t.1 + dataHeader + size m t.1) ∧ 0 ≤ size m t.1) :
    p.Knows bufferSize m' := by
  have header : dataHeader = 10 := rfl
  have sizes : ∀ t ∈ p.tokens, size m' t.1 = size m t.1 := by
    intro t ht
    obtain ⟨still, nonneg⟩ := same t ht
    exact congrArg (fun v : Nat => long v) (Bytes.read_congr (still.sub (by omega) (by omega)))
  cases p with
  | send n ws pc =>
      obtain ⟨short, fits, k⟩ := k
      refine ⟨short, fits, ?_⟩
      cases pc with
      | divideLength i | divideValid i | storeLength i | claimSecond i second =>
          have sized := sizes _ List.mem_cons_self
          dsimp only at sized k ⊢
          rwa [sized]
      | dividePrepare i | divideRead i | divideSize i rest | shrink i =>
          have sized := sizes _ List.mem_cons_self
          obtain ⟨still, -⟩ := same _ List.mem_cons_self
          dsimp only at sized still k ⊢
          have low : n + dataHeader ≤ size m i := k.1
          have val : valid m' (i + dataHeader + n) = valid m (i + dataHeader + n) :=
            Bytes.read_congr (still.sub (by omega) (by omega))
          have prep : prepare m' (i + dataHeader + n) = prepare m (i + dataHeader + n) :=
            Bytes.read_congr (still.sub (by omega) (by omega))
          have rest : size m' (i + dataHeader + n) = size m (i + dataHeader + n) :=
            congrArg (fun v : Nat => long v)
              (Bytes.read_congr (still.sub (by omega) (by omega)))
          simpa only [sized, val, prep, rest] using k
      | readSecond i second | addSecond i second more =>
          have first := sizes (i, .busy 0) (by simp [tokens])
          have other := sizes (second, .busy 0) (by simp [tokens])
          dsimp only at first other k ⊢
          simpa only [first, other] using k
      | fill data =>
          obtain ⟨still, nonneg⟩ := same _ List.mem_cons_self
          dsimp only at still nonneg k ⊢
          have len : length m' (data - dataHeader) = length m (data - dataHeader) :=
            Bytes.read_congr (still.sub (by omega) (by omega))
          rwa [len]
      | advance i => exact k
      | _ => trivial
  | read pc =>
      cases pc with
      | handle i len =>
          obtain ⟨still, nonneg⟩ := same _ List.mem_cons_self
          dsimp only [Knows] at still nonneg k ⊢
          have same : length m' i = length m i :=
            Bytes.read_congr (still.sub (by omega) (by omega))
          rwa [same]
      | advance i => exact k
      | _ => trivial

end Call

/-- The chunks of a state, each owned by at most one call. -/
structure Partition (bufferSize : Int) (s : Shared) (ps : List Call) (cs : List Cell) : Prop where
  contig : Contig dataArea cs bufferSize
  holds : ∀ c ∈ cs, c.Holds s.mem
  tokens : (ps.flatMap Call.tokens).Perm (cs.filterMap Cell.token)
  held : s.held.Perm (cs.filterMap Cell.region)
  knows : ∀ p ∈ ps, p.Knows bufferSize s.mem
  stands : ∀ p ∈ ps, ∀ j, p.cursor = some j → j ∈ spotsOf cs ∨ j = bufferSize

section Partition
variable {bufferSize : Int} {s : Shared} {ps qs others : List Call} {p p' q : Call}
  {cs pre mid mid' post : List Cell} {c c' : Cell} {m' : Memory} {held' : List Region}

theorem Partition.order (h : Partition bufferSize s ps cs) (perm : ps.Perm qs) :
    Partition bufferSize s qs cs :=
  ⟨h.contig, h.holds, (perm.symm.flatMap_right _).trans h.tokens, h.held,
    fun p hp => h.knows p (perm.mem_iff.mpr hp), fun p hp => h.stands p (perm.mem_iff.mpr hp)⟩

theorem Cell.token_iff {t : Int × Role} :
    c.token = some t ↔ c.base = t.1 ∧ c.duty.role = some t.2 := by
  obtain ⟨i, r⟩ := t
  simp only [Cell.token, Option.map_eq_some_iff, Prod.mk.injEq]
  constructor
  · rintro ⟨r, role, rfl, rfl⟩
    exact ⟨rfl, role⟩
  · rintro ⟨rfl, role⟩
    exact ⟨r, role, rfl, rfl⟩

theorem Cell.stop_le {m : Memory} (h : c.Holds m) : c.base + dataHeader + size m c.base = c.stop := by
  rw [h.header.size]
  rfl

theorem Partition.token_cell {t : Int × Role} (h : Partition bufferSize s (p :: others) cs)
    (ht : t ∈ p.tokens) : ∃ c ∈ cs, c.token = some t := by
  have all : t ∈ (p :: others).flatMap Call.tokens := List.mem_append_left _ ht
  exact List.mem_filterMap.mp (h.tokens.mem_iff.mp all)

theorem Partition.tokens_nodup (h : Partition bufferSize s ps cs) :
    (ps.flatMap Call.tokens).Nodup := by
  rw [h.tokens.nodup_iff, List.Nodup, List.pairwise_filterMap]
  have header : dataHeader = 10 := rfl
  refine h.contig.apart.imp ?_
  intro c d order t ht u hu same
  have first := (Cell.token_iff.mp ht).1
  have second := (Cell.token_iff.mp hu).1
  have stop : c.stop = c.base + dataHeader + c.width := rfl
  rw [same] at first
  omega

/-- The chunks of the other calls lie outside those of a step's own. -/
theorem Partition.others_cell {t : Int × Role}
    (h : Partition bufferSize s (p :: others) (pre ++ mid ++ post)) (hq : q ∈ others)
    (ht : t ∈ q.tokens) (owned : mid.filterMap Cell.token ⊆ p.tokens) :
    ∃ c, (c ∈ pre ∨ c ∈ post) ∧ c.token = some t := by
  have nodup := h.tokens_nodup
  rw [List.flatMap_cons, List.nodup_append] at nodup
  have others_t : t ∈ others.flatMap Call.tokens := List.mem_flatMap.mpr ⟨q, hq, ht⟩
  have foreign : t ∉ p.tokens := fun own => nodup.2.2 t own t others_t rfl
  have all : t ∈ (p :: others).flatMap Call.tokens := List.mem_append_right _ others_t
  obtain ⟨c, hc, hct⟩ := List.mem_filterMap.mp (h.tokens.mem_iff.mp all)
  refine ⟨c, ?_, hct⟩
  rcases List.mem_append.mp hc with front | back
  · rcases List.mem_append.mp front with here | within
    · exact .inl here
    · exact absurd (owned (List.mem_filterMap.mpr ⟨c, within, hct⟩)) foreign
  · exact .inr back

/-- Bytes outside the exchanged chunks stay as they are. -/
def OutsideOf (mid : List Cell) (m m' : Memory) : Prop :=
  ∀ x, dataArea ≤ x → (∀ c ∈ mid, x < c.base ∨ c.stop ≤ x) → m' x = m x

theorem Partition.frame_outside (h : Partition bufferSize s ps (pre ++ mid ++ post))
    (outside : OutsideOf mid s.mem m') (hc : c ∈ pre ∨ c ∈ post) :
    SameOn s.mem m' c.base c.stop := by
  have mem : c ∈ pre ++ mid ++ post := by
    rcases hc with hc | hc <;> simp [hc]
  have low := (h.contig.inside mem).1
  intro x hx hx'
  refine outside x (by omega) fun d hd => ?_
  have apart := h.contig.apart
  rcases hc with hc | hc
  · rw [List.append_assoc] at apart
    have order := (List.pairwise_append.mp apart).2.2 c hc d (List.mem_append_left _ hd)
    omega
  · have order := (List.pairwise_append.mp apart).2.2 d (List.mem_append_right _ hd) c hc
    omega

/-- A step exchanges chunks that it owns, or that nobody owns. -/
theorem Partition.edit (h : Partition bufferSize s (p :: others) (pre ++ mid ++ post))
    (fills : ∀ a b, Contig a mid b → Contig a mid' b)
    (outside : OutsideOf mid s.mem m')
    (holds : ∀ c ∈ mid', c.Holds m')
    (owned : mid.filterMap Cell.token ⊆ p.tokens)
    (tokens : (p'.tokens ++ mid.filterMap Cell.token).Perm
      (p.tokens ++ mid'.filterMap Cell.token))
    (held : (held' ++ mid.filterMap Cell.region).Perm (s.held ++ mid'.filterMap Cell.region))
    (spots : ∀ q ∈ others, ∀ j, q.cursor = some j → j ∈ spotsOf mid → j ∈ spotsOf mid')
    (knows : p'.Knows bufferSize m')
    (stands : ∀ j, p'.cursor = some j → j ∈ spotsOf (pre ++ mid' ++ post) ∨ j = bufferSize) :
    Partition bufferSize ⟨m', held'⟩ (p' :: others) (pre ++ mid' ++ post) := by
  refine ⟨h.contig.exchange fills, ?_, ?_, ?_, ?_, ?_⟩
  · intro c hc
    have old : c ∈ pre ∨ c ∈ post → c.Holds m' := fun side =>
      (h.holds c (by rcases side with side | side <;> simp [side])).frame
        (h.frame_outside outside side)
    rcases List.mem_append.mp hc with front | back
    · rcases List.mem_append.mp front with here | within
      · exact old (.inl here)
      · exact holds c within
    · exact old (.inr back)
  · have before := h.tokens
    simp only [List.perm_iff_count, List.flatMap_cons, List.filterMap_append,
      List.count_append] at before tokens ⊢
    intro t
    have before := before t
    have tokens := tokens t
    omega
  · have before := h.held
    simp only [List.perm_iff_count, List.filterMap_append, List.count_append] at before held ⊢
    intro r
    have before := before r
    have held := held r
    omega
  · intro q hq
    rcases List.mem_cons.mp hq with rfl | hq
    · exact knows
    · refine (h.knows q (List.mem_cons_of_mem p hq)).frame ?_
      intro t ht
      obtain ⟨c, side, hct⟩ := h.others_cell hq ht owned
      have still := h.frame_outside outside side
      have holds := h.holds c (by rcases side with side | side <;> simp [side])
      rw [← (Cell.token_iff.mp hct).1, Cell.stop_le holds, holds.header.size]
      exact ⟨still, Int.natCast_nonneg _⟩
  · intro q hq j hj
    rcases List.mem_cons.mp hq with rfl | hq
    · exact stands j hj
    · refine (h.stands q (List.mem_cons_of_mem p hq) j hj).imp_left fun there => ?_
      simp only [spotsOf, List.flatMap_append, List.mem_append] at there ⊢
      exact there.imp_left (Or.imp_right (spots q hq j hj))

theorem Partition.still (h : Partition bufferSize s (p :: others) cs)
    (same : ∀ x, dataArea ≤ x → m' x = s.mem x) (tokens : p'.tokens = p.tokens)
    (knows : p'.Knows bufferSize m')
    (stands : ∀ j, p'.cursor = some j → j ∈ spotsOf cs ∨ j = bufferSize) :
    Partition bufferSize ⟨m', s.held⟩ (p' :: others) cs := by
  have whole : Partition bufferSize s (p :: others) ([] ++ [] ++ cs) := h
  have edited : Partition bufferSize ⟨m', s.held⟩ (p' :: others) ([] ++ [] ++ cs) := by
    refine whole.edit (fun _ _ => id) (fun x hx _ => same x hx) (by simp) (by simp) ?_
      (.refl _) (by simp) knows stands
    rw [tokens]
  exact edited

end Partition

namespace Cell
variable {m m' : Memory} {c : Cell} {d : Duty} {j : Int}

/-- The chunk put to another use; the headers in its clean part are given up. -/
def recast (c : Cell) (d : Duty) : Cell :=
  { c with duty := d, stale := c.stale.filter fun h => c.base + dataHeader + d.clean ≤ h }

theorem recast_holds (h : c.Holds m) (header : (c.recast d).Header m')
    (same : SameOn m m' (c.base + dataHeader + d.clean) c.stop) : (c.recast d).Holds m' := by
  have ten : dataHeader = 10 := rfl
  refine ⟨header, fun a ha => ?_⟩
  obtain ⟨ha, low⟩ := List.mem_filter.mp ha
  have low : c.base + dataHeader + d.clean ≤ a := of_decide_eq_true low
  obtain ⟨-, high, prep, val, size, next⟩ := h.stale a ha
  have old : (c.recast d).Passes m a := by
    refine ⟨low, high, prep, val, size, next.imp_left fun more => ?_⟩
    refine List.mem_filter.mpr ⟨more, decide_eq_true ?_⟩
    omega
  exact old.frame same

theorem recast_spots (clear : c.base + dataHeader + d.clean ≤ j) (hj : j ∈ c.stale) :
    j ∈ (c.recast d).stale :=
  List.mem_filter.mpr ⟨hj, decide_eq_true clear⟩

end Cell

section Recast
variable {bufferSize : Int} {s : Shared} {others : List Call} {p p' : Call}
  {cs pre post : List Cell} {c : Cell} {m' : Memory} {held' : List Region}
  {r : List (Int × Role)}

theorem split_cell (hc : c ∈ cs) : ∃ pre post, cs = pre ++ [c] ++ post := by
  obtain ⟨pre, post, rfl⟩ := List.append_of_mem hc
  exact ⟨pre, post, by simp⟩

theorem Partition.recast (h : Partition bufferSize s (p :: others) (pre ++ [c] ++ post)) {d : Duty}
    (outside : ∀ x, dataArea ≤ x → x < c.base ∨ c.stop ≤ x → m' x = s.mem x)
    (header : (c.recast d).Header m')
    (same : SameOn s.mem m' (c.base + dataHeader + d.clean) c.stop)
    (own : p.tokens = c.token.toList ++ r)
    (own' : p'.tokens = (c.recast d).token.toList ++ r)
    (held : (held' ++ c.region.toList).Perm (s.held ++ (c.recast d).region.toList))
    (clear : d.clean ≤ c.clean ∨ ∀ q ∈ others, ∀ j, q.cursor = some j →
      j ≤ c.base ∨ c.base + dataHeader + d.clean ≤ j)
    (knows : p'.Knows bufferSize m')
    (stands : ∀ j, p'.cursor = some j → j = c.base ∨ j = dataArea ∨ j ∈ spotsOf pre) :
    ∃ cs, Partition bufferSize ⟨m', held'⟩ (p' :: others) cs := by
  have ten : dataHeader = 10 := rfl
  have hc : c ∈ pre ++ [c] ++ post := by simp
  have holds := h.holds c hc
  have one : ∀ {β : Type} (f : Cell → Option β) (e : Cell), [e].filterMap f = (f e).toList := by
    intro β f e
    cases hf : f e <;> simp [hf]
  have fills : ∀ a b, Contig a [c] b → Contig a [c.recast d] b := fun _ _ => id
  refine ⟨_, h.edit fills ?_ ?_ ?_ ?_ ?_ ?_ knows ?_⟩
  · exact fun x low apart => outside x low (apart c (List.mem_singleton_self c))
  · intro e he
    rw [List.mem_singleton.mp he]
    exact Cell.recast_holds holds header same
  · intro t ht
    rw [one] at ht
    rw [own]
    exact List.mem_append_left _ ht
  · rw [one, one, own, own']
    simp only [List.perm_iff_count, List.count_append]
    omega
  · rw [one, one]
    exact held
  · intro q hq j hj there
    simp only [spotsOf, List.flatMap_cons, List.flatMap_nil, List.append_nil] at there ⊢
    rcases List.mem_cons.mp there with rfl | old
    · exact List.mem_cons_self
    · have low := (holds.stale j old).low
      refine List.mem_cons_of_mem _ (Cell.recast_spots ?_ old)
      rcases clear with less | clear
      · omega
      · have side := clear q hq j hj
        omega
  · intro j hj
    rcases stands j hj with rfl | rfl | there
    · exact .inl (by simp [spotsOf, Cell.spots, Cell.recast])
    · exact (h.contig.exchange fills).start_spot
    · left
      simp only [spotsOf, List.flatMap_append, List.append_assoc] at there ⊢
      exact List.mem_append_left _ there

end Recast
end LMalz.Buffer
