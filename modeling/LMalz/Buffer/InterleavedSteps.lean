import LMalz.Buffer.Ownership

/- Every step keeps a partition of the buffer, as long as no cursor stands in the bytes a
PrepareData gives away. -/
namespace LMalz.Buffer
open Function (update)
open Bytes (Memory SameOn)

section Cells
variable {bufferSize : Int} {s : Shared} {others : List Call} {p : Call} {cs : List Cell}
  {c : Cell} {m : Memory} {d : Duty} {i j : Int} {k : Nat}

theorem Duty.role_busy (h : d.role = some (.busy k)) : d = .busy k := by
  cases d with
  | busy l =>
      cases h
      rfl
  | region stage n => cases stage <;> cases h
  | _ => cases h

theorem Duty.role_filling (h : d.role = some .filling) : ∃ n, d = .region .filling n := by
  cases d with
  | region stage n =>
      cases stage with
      | filling => exact ⟨n, rfl⟩
      | _ => cases h
  | _ => cases h

theorem Duty.role_taken (h : d.role = some .taken) : ∃ n, d = .region .taken n := by
  cases d with
  | region stage n =>
      cases stage with
      | taken => exact ⟨n, rfl⟩
      | _ => cases h
  | _ => cases h

theorem Duty.free_of_mark (h : d.prepareMark = 0) : d = .free := by
  cases d with
  | free => rfl
  | _ => cases h

theorem Duty.sent_of_mark (h : d.validMark ≠ 0) : ∃ n, d = .region .sent n := by
  cases d with
  | region stage n =>
      cases stage with
      | sent => exact ⟨n, rfl⟩
      | _ => exact absurd rfl h
  | _ => exact absurd rfl h

theorem Partition.owned {r : Role} (h : Partition bufferSize s (p :: others) cs)
    (ht : (i, r) ∈ p.tokens) : ∃ pre c post, cs = pre ++ [c] ++ post ∧ c.base = i ∧
      c.duty.role = some r ∧ c.Holds s.mem ∧ dataArea ≤ c.base ∧ c.stop ≤ bufferSize := by
  obtain ⟨c, hc, token⟩ := h.token_cell ht
  obtain ⟨here, role⟩ := Cell.token_iff.mp token
  have holds := h.holds c hc
  have inside := h.contig.inside hc
  obtain ⟨pre, post, rfl⟩ := split_cell hc
  exact ⟨pre, c, post, rfl, here, role, holds, inside⟩

theorem Partition.stood (h : Partition bufferSize s (p :: others) cs) (hj : j ∈ spotsOf cs) :
    ∃ pre c post, cs = pre ++ [c] ++ post ∧ (j = c.base ∨ j ∈ c.stale) ∧ c.Holds s.mem ∧
      dataArea ≤ c.base ∧ c.stop ≤ bufferSize := by
  obtain ⟨c, hc, here⟩ := List.mem_flatMap.mp hj
  have holds := h.holds c hc
  have inside := h.contig.inside hc
  obtain ⟨pre, post, rfl⟩ := split_cell hc
  exact ⟨pre, c, post, rfl, List.mem_cons.mp here, holds, inside⟩

theorem Partition.advance (h : Partition bufferSize s (p :: others) cs) (hj : j ∈ spotsOf cs) :
    j + dataHeader + size s.mem j ∈ spotsOf cs ∨ j + dataHeader + size s.mem j = bufferSize := by
  obtain ⟨c, hc, here⟩ := List.mem_flatMap.mp hj
  have holds := h.holds c hc
  have behind := h.contig.stop_spot hc
  rcases List.mem_cons.mp here with rfl | stale
  · rwa [Cell.stop_le holds]
  · rcases (holds.stale j stale).next with more | ends
    · exact .inl (List.mem_flatMap.mpr ⟨c, hc, List.mem_cons_of_mem _ more⟩)
    · rwa [ends]

/-- A merged header says it is in use and not valid. -/
theorem Cell.Holds.marks (h : c.Holds m) (here : j = c.base ∨ j ∈ c.stale) :
    (j = c.base ∧ prepare m j = c.duty.prepareMark ∧ valid m j = c.duty.validMark) ∨
      (prepare m j = 1 ∧ valid m j = 0) := by
  rcases here with rfl | stale
  · exact .inl ⟨rfl, h.header.prepare, h.header.valid⟩
  · exact .inr ⟨(h.stale j stale).prepare, (h.stale j stale).valid⟩

theorem Cell.Header.recast (h : c.Header m) (prep : c.duty.prepareMark = d.prepareMark)
    (val : c.duty.validMark = d.validMark)
    (len : ∀ stage n, d = .region stage n → Buffer.length m c.base = n ∧ n ≤ c.width) :
    (c.recast d).Header m :=
  ⟨h.size, h.prepare.trans prep, h.valid.trans val, len⟩

theorem Cell.Header.mark (h : c.Header m) (short : d.prepareMark < 2^16)
    (val : c.duty.validMark = d.validMark) (plain : ∀ stage n, d ≠ .region stage n) :
    (c.recast d).Header (setPrepare m c.base d.prepareMark) := by
  obtain ⟨sized, -, valid, -⟩ := h
  refine ⟨size_setPrepare.trans sized, ?_, ?_, fun stage n same => absurd same (plain stage n)⟩
  · simp only [Cell.recast, Buffer.prepare, setPrepare, Bytes.read_write]
    omega
  · have kept : Buffer.valid (setPrepare m c.base d.prepareMark) c.base = Buffer.valid m c.base :=
      Bytes.read_write_apart (by omega)
    exact kept.trans (valid.trans val)

end Cells

section Divide
variable {c d : Cell} {m : Memory} {n : Nat} {lo hi : Int}

/-- The part of a divided chunk that is handed out. -/
def Cell.front (c : Cell) (n : Nat) : Cell := ⟨c.base, n, .busy 0, []⟩

/-- The part of a divided chunk that stays free. -/
def Cell.back (c : Cell) (n : Nat) : Cell :=
  ⟨c.base + dataHeader + n, c.width - n - 10, .free, c.stale⟩

/-- Two chunks made one. -/
def Cell.join (c d : Cell) : Cell :=
  ⟨c.base, c.width + d.width + 10, .busy 0, c.stale ++ d.base :: d.stale⟩

theorem Cell.back_stop (fits : n + 10 ≤ c.width) : (c.back n).stop = c.stop := by
  have ten : dataHeader = 10 := rfl
  simp only [Cell.stop, Cell.back]
  omega

theorem Cell.join_stop (next : d.base = c.stop) : (c.join d).stop = d.stop := by
  have ten : dataHeader = 10 := rfl
  have stop : c.stop = c.base + dataHeader + c.width := rfl
  simp only [Cell.stop, Cell.join]
  omega

theorem Contig.divide (fits : n + 10 ≤ c.width) (h : Contig lo [c] hi) :
    Contig lo [c.front n, c.back n] hi :=
  ⟨h.1, rfl, (Cell.back_stop fits).trans h.2⟩

theorem Contig.join (h : Contig lo [c, d] hi) : Contig lo [c.join d] hi :=
  ⟨h.1, (Cell.join_stop h.2.1).trans h.2.2⟩

theorem setSize_outside {i x v : Int} (out : x < i + 6 ∨ i + 10 ≤ x) :
    setSize m i v x = m x :=
  Bytes.write_outside (by omega)

theorem Cell.Header.resize {k w : Nat} {c' : Cell} (h : c.Header m) (busy : c.duty = .busy k)
    (base : c'.base = c.base) (width : c'.width = w) (duty : c'.duty = .busy 0)
    (small : w < 2^31) : c'.Header (setSize m c.base w) := by
  refine ⟨?_, ?_, ?_, fun stage n same => absurd (duty.symm.trans same) nofun⟩
  · rw [base, width]
    simp only [Buffer.size, setSize, Bytes.read_write]
    exact long_stored (by omega) (by omega)
  · have kept : Buffer.prepare (setSize m c.base w) c.base = Buffer.prepare m c.base :=
      Bytes.read_write_apart (by omega)
    rw [base, kept, h.prepare, busy, duty]
    rfl
  · have kept : Buffer.valid (setSize m c.base w) c.base = Buffer.valid m c.base :=
      Bytes.read_write_apart (by omega)
    rw [base, kept, h.valid, busy, duty]
    rfl

theorem Cell.front_holds (h : c.Holds m) (busy : c.duty = .busy (n + 10)) (small : n < 2^31) :
    (c.front n).Holds (setSize m c.base n) :=
  ⟨h.header.resize busy rfl rfl rfl small, fun _ => nofun⟩

theorem Cell.back_holds (h : c.Holds m) (busy : c.duty = .busy (n + 10))
    (fits : n + 10 ≤ c.width) (val : valid m (c.base + dataHeader + n) = 0)
    (prep : prepare m (c.base + dataHeader + n) = 0)
    (sized : size m (c.base + dataHeader + n) = c.width - n - dataHeader) :
    (c.back n).Holds (setSize m c.base n) := by
  have ten : dataHeader = 10 := rfl
  have base : (c.back n).base = c.base + dataHeader + n := rfl
  have none : (c.back n).clean = 0 := rfl
  have clean : c.clean = n + 10 := by
    rw [Cell.clean, busy]
    rfl
  have old : (c.back n).Holds m := by
    refine ⟨⟨?_, prep, val, fun _ _ => nofun⟩, fun a ha => ?_⟩
    · have width : (c.back n).width = c.width - n - 10 := rfl
      rw [base, sized, width]
      omega
    · obtain ⟨low, high, prep, val, size, next⟩ := h.stale a ha
      rw [← Cell.back_stop fits] at high next
      exact ⟨by omega, high, prep, val, size, next⟩
  exact old.frame fun x low _ => setSize_outside (.inr (by omega))

/-- The header of the second chunk is kept as one to be walked over. -/
theorem Cell.join_holds (hc : c.Holds m) (hd : d.Holds m) (first : c.duty = .busy 0)
    (second : d.duty = .busy 0) (next : d.base = c.stop) (small : c.width + d.width + 10 < 2^31) :
    (c.join d).Holds (setSize m c.base (c.width + d.width + 10 : Nat)) := by
  have ten : dataHeader = 10 := rfl
  have c_stop : c.stop = c.base + dataHeader + c.width := rfl
  have d_stop : d.stop = d.base + dataHeader + d.width := rfl
  have stop := Cell.join_stop next
  have c_clean : c.clean = 0 := by
    rw [Cell.clean, first]
    rfl
  have d_clean : d.clean = 0 := by
    rw [Cell.clean, second]
    rfl
  have clean : (c.join d).clean = 0 := rfl
  have base : (c.join d).base = c.base := rfl
  have stale : (c.join d).stale = c.stale ++ d.base :: d.stale := rfl
  refine ⟨hc.header.resize first rfl rfl rfl small, fun a ha => ?_⟩
  have old : (c.join d).Passes m a := by
    rw [stale] at ha
    rcases List.mem_append.mp ha with left | right
    · obtain ⟨low, high, prep, val, size, next'⟩ := hc.stale a left
      refine ⟨by omega, by omega, prep, val, size, .inl ?_⟩
      rcases next' with more | ends
      · exact List.mem_append_left _ more
      · rw [ends, ← next]
        exact List.mem_append_right _ List.mem_cons_self
    · rcases List.mem_cons.mp right with rfl | right
      · refine ⟨by omega, by omega, ?_, ?_, ?_, .inr ?_⟩
        · rw [hd.header.prepare, second]
          rfl
        · rw [hd.header.valid, second]
          rfl
        · rw [hd.header.size]
          omega
        · rw [stop, hd.header.size, d_stop]
      · obtain ⟨low, high, prep, val, size, next'⟩ := hd.stale a right
        refine ⟨by omega, by omega, prep, val, size, ?_⟩
        rw [stop]
        exact next'.imp_left fun more => List.mem_append_right _ (List.mem_cons_of_mem _ more)
  exact old.frame fun x low _ => setSize_outside (.inr (by omega))

end Divide

section Sender
variable {bufferSize : Int} {s : Shared} {others : List Call} {n : Nat}
  {ws : List (Nat × BitVec 8)} {cs pre post : List Cell} {c : Cell} {i second more : Int}
  {p p' : Call}

theorem Partition.mark {d : Duty} {r : List (Int × Role)} {held' : List Region}
    (h : Partition bufferSize s (p :: others) (pre ++ [c] ++ post))
    (short : d.prepareMark < 2^16) (val : c.duty.validMark = d.validMark)
    (plain : ∀ stage n, d ≠ .region stage n) (clean : d.clean = 0)
    (own : p.tokens = c.token.toList ++ r)
    (own' : p'.tokens = (c.recast d).token.toList ++ r)
    (held : (held' ++ c.region.toList).Perm s.held)
    (knows : p'.Knows bufferSize (setPrepare s.mem c.base d.prepareMark))
    (stands : ∀ j, p'.cursor = some j → j = c.base ∨ j = dataArea ∨ j ∈ spotsOf pre) :
    ∃ cs, Partition bufferSize ⟨setPrepare s.mem c.base d.prepareMark, held'⟩
      (p' :: others) cs := by
  have ten : dataHeader = 10 := rfl
  have stop : c.stop = c.base + dataHeader + c.width := rfl
  have holds := h.holds c (by simp)
  have out : ∀ x, x < c.base ∨ c.base + dataHeader ≤ x →
      setPrepare s.mem c.base d.prepareMark x = s.mem x := fun x apart => setPrepare_outside apart
  have none : (c.recast d).region = none := by
    cases d with
    | region stage n => exact absurd rfl (plain stage n)
    | _ => rfl
  refine h.recast (fun x _ apart => out x (by omega)) (holds.header.mark short val plain)
    (fun x low _ => out x (.inr (by omega))) own own' ?_ (.inl (by omega)) knows stands
  rwa [none, Option.toList_none, List.append_nil]

theorem Partition.claim (h : Partition bufferSize s (.send n ws (.claim i) :: others) cs)
    (inside : i < bufferSize) (free : prepare s.mem i = 0) :
    ∃ cs, Partition bufferSize ⟨setPrepare s.mem i 1, s.held⟩
      (.send n ws (.testDivide i) :: others) cs := by
  have knows := h.knows _ List.mem_cons_self
  have stands := h.stands _ List.mem_cons_self i rfl
  obtain ⟨pre, c, post, rfl, here, holds, -⟩ := h.stood (stands.resolve_right (by omega))
  obtain ⟨rfl, mark, -⟩ := (holds.marks here).resolve_right (by omega)
  have duty : c.duty = .free := Duty.free_of_mark (mark.symm.trans free)
  refine h.mark (d := .busy 0) (r := []) (by decide) ?_ (fun _ _ => nofun) rfl ?_ rfl ?_
    ⟨knows.1, knows.2.1, trivial⟩ ?_
  · rw [duty]
    rfl
  · rw [Cell.token, duty]
    rfl
  · rw [Cell.region, duty]
    exact .of_eq (List.append_nil _)
  · rintro j ⟨⟩
    exact .inl rfl

/-- A step of the branch that divides, up to the stores in the new header. -/
theorem Partition.carve {k : Nat} {m' : Memory}
    (h : Partition bufferSize s (p :: others) cs) (own : p.tokens = [(i, .busy k)])
    (own' : p'.tokens = [(i, .busy (n + 10))]) (fits : n + dataHeader ≤ size s.mem i)
    (out : ∀ x, x < i + dataHeader + n ∨ i + dataHeader + n + dataHeader ≤ x → m' x = s.mem x)
    (clear : n + 10 ≤ k ∨ ∀ q ∈ others, ∀ j, q.cursor = some j →
      j ≤ i ∨ i + dataHeader + n + dataHeader ≤ j)
    (knows : size m' i = size s.mem i → p'.Knows bufferSize m') (stands : p'.cursor = some i) :
    ∃ cs, Partition bufferSize ⟨m', s.held⟩ (p' :: others) cs := by
  have ten : dataHeader = 10 := rfl
  obtain ⟨pre, c, post, rfl, rfl, role, holds, -⟩ :=
    h.owned (by rw [own]; exact List.mem_singleton_self _)
  have duty := Duty.role_busy role
  have stop : c.stop = c.base + dataHeader + c.width := rfl
  have width := holds.header.size
  have same : SameOn s.mem m' c.base (c.base + dataHeader) := fun x _ _ => out x (by omega)
  have header := holds.header.frame same
  refine h.recast (d := .busy (n + 10)) (r := []) (fun x _ apart => out x (by omega))
    (header.recast ?_ ?_ (fun _ _ => nofun)) ?_ ?_ own' ?_ ?_
    (knows (header.size.trans width.symm)) ?_
  · rw [duty]
    rfl
  · rw [duty]
    rfl
  · intro x low _
    refine out x (.inr ?_)
    simp only [Duty.clean] at low
    omega
  · rw [Cell.token, role, own]
    rfl
  · rw [Cell.region, duty]
    exact .refl _
  · refine clear.imp ?_ ?_
    · rw [Cell.clean, duty]
      exact id
    · intro clear q hq j hj
      have side := clear q hq j hj
      simp only [Duty.clean]
      omega
  · intro j hj
    exact .inl (Option.some.inj (hj.symm.trans stands))

/-- The new header becomes a chunk of its own. -/
theorem Partition.shrink (h : Partition bufferSize s (.send n ws (.shrink i) :: others) cs) :
    ∃ cs, Partition bufferSize ⟨setSize s.mem i n, s.held⟩
      (.send n ws (.storeLength i) :: others) cs := by
  have ten : dataHeader = 10 := rfl
  obtain ⟨short, fits, room, val, prep, sized⟩ := h.knows _ List.mem_cons_self
  obtain ⟨pre, c, post, rfl, rfl, role, holds, low, high⟩ := h.owned List.mem_cons_self
  have duty := Duty.role_busy role
  have stop : c.stop = c.base + dataHeader + c.width := rfl
  rw [holds.header.size] at room sized
  have room : n + 10 ≤ c.width := by omega
  have front := Cell.front_holds holds duty (by omega)
  have back := Cell.back_holds holds duty room val prep sized
  have before : [c].filterMap Cell.token = [(c.base, .busy (n + 10))] := by
    simp [Cell.token, role]
  have after : [c.front n, c.back n].filterMap Cell.token = [(c.base, .busy 0)] := rfl
  have out_before : [c].filterMap Cell.region = [] := by
    simp [Cell.region, duty, Duty.lends]
  have out_after : [c.front n, c.back n].filterMap Cell.region = [] := rfl
  refine ⟨_, h.edit (fun _ _ => Contig.divide room) ?_ ?_ ?_ ?_ ?_ ?_ ⟨short, fits, ?_⟩ ?_⟩
  · intro x _ apart
    have side := apart c (List.mem_singleton_self c)
    exact setSize_outside (by omega)
  · intro e he
    rcases List.mem_cons.mp he with rfl | he
    · exact front
    · rw [List.mem_singleton.mp he]
      exact back
  · rw [before]
    exact List.Subset.refl _
  · rw [before, after]
    exact List.Perm.swap _ _ _
  · rw [out_before, out_after]
  · intro q _ j _ there
    simp only [spotsOf, Cell.spots, List.flatMap_cons, List.flatMap_nil, List.append_nil,
      List.mem_cons] at there
    rcases there with rfl | stale
    · simp [spotsOf, Cell.spots, Cell.front]
    · simp [spotsOf, Cell.spots, Cell.back, stale]
  · exact front.header.size.ge
  · rintro j ⟨⟩
    exact .inl (by simp [spotsOf, Cell.spots, Cell.front])

theorem Partition.hand (h : Partition bufferSize s (.send n ws (.storeLength i) :: others) cs)
    (clear : Call.Clear others (.send n ws (.storeLength i))) :
    ∃ cs, Partition bufferSize ⟨setLength s.mem i n, ⟨i + dataHeader, n, false⟩ :: s.held⟩
      (.send n ws (.fill (i + dataHeader)) :: others) cs := by
  have ten : dataHeader = 10 := rfl
  obtain ⟨short, fits, room⟩ := h.knows _ List.mem_cons_self
  obtain ⟨pre, c, post, rfl, rfl, role, holds, -⟩ := h.owned List.mem_cons_self
  have duty := Duty.role_busy role
  have stop : c.stop = c.base + dataHeader + c.width := rfl
  have room : n ≤ size s.mem c.base := room
  rw [holds.header.size] at room
  have out : ∀ x, x < c.base ∨ c.base + dataHeader ≤ x → setLength s.mem c.base n x = s.mem x :=
    fun x apart => Bytes.write_outside (by omega)
  have stored : length (setLength s.mem c.base n) c.base = n := by
    simp only [length, setLength, Bytes.read_write]
    omega
  refine h.recast (d := .region .filling n) (r := []) (fun x _ apart => out x (by omega)) ⟨?_, ?_, ?_, ?_⟩
    (fun x low _ => out x (.inr (by omega))) ?_ ?_ ?_ (.inr (clear _ rfl)) ⟨short, fits, ?_⟩ ?_
  · have kept : size (setLength s.mem c.base n) c.base = size s.mem c.base :=
      congrArg (fun v : Nat => long v) (Bytes.read_write_apart (by omega))
    exact kept.trans holds.header.size
  · have kept : prepare (setLength s.mem c.base n) c.base = prepare s.mem c.base :=
      Bytes.read_write_apart (by omega)
    exact kept.trans (holds.header.prepare.trans (by rw [duty]; rfl))
  · have kept : valid (setLength s.mem c.base n) c.base = valid s.mem c.base :=
      Bytes.read_write_apart (by omega)
    exact kept.trans (holds.header.valid.trans (by rw [duty]; rfl))
  · rintro stage k ⟨⟩
    have width : n ≤ c.width := by omega
    exact ⟨stored, width⟩
  · rw [Cell.token, role]
    rfl
  · rw [Call.tokens, Int.add_sub_cancel]
    rfl
  · have none : c.region = none := by
      rw [Cell.region, duty]
      rfl
    have given : (c.recast (.region .filling n)).region = some ⟨c.base + dataHeader, n, false⟩ := rfl
    rw [none, given, Option.toList_none, Option.toList_some, List.append_nil]
    exact (List.perm_append_singleton _ _).symm
  · show length (setLength s.mem c.base n) (c.base + dataHeader - dataHeader) = n
    rwa [Int.add_sub_cancel]
  · intro j same
    cases same

/-- The last chunk is too small and is left marked. -/
theorem Partition.lose (h : Partition bufferSize s (.send n ws (.findSecond i) :: others) cs) :
    ∃ cs, Partition bufferSize s (.send n ws (.advance i) :: others) cs := by
  have ten : dataHeader = 10 := rfl
  obtain ⟨short, fits, -⟩ := h.knows _ List.mem_cons_self
  obtain ⟨pre, c, post, rfl, rfl, role, holds, low, high⟩ := h.owned List.mem_cons_self
  have duty := Duty.role_busy role
  have stop : c.stop = c.base + dataHeader + c.width := rfl
  refine h.recast (d := .lost) (r := []) (fun _ _ _ => rfl)
    (holds.header.recast ?_ ?_ (fun _ _ => nofun)) (SameOn.refl _ _ _) ?_ rfl ?_
    (.inl (Nat.zero_le _)) ⟨short, fits, ?_⟩ ?_
  · rw [duty]
    rfl
  · rw [duty]
    rfl
  · rw [Cell.token, role]
    rfl
  · rw [Cell.region, duty]
    exact .refl _
  · show c.base < bufferSize
    omega
  · rintro j ⟨⟩
    exact .inl rfl

/-- The mark of the next chunk is taken as well. -/
theorem Partition.claimSecond
    (h : Partition bufferSize s (.send n ws (.claimSecond i second) :: others) cs)
    (free : prepare s.mem second = 0) :
    ∃ cs, Partition bufferSize ⟨setPrepare s.mem second 1, s.held⟩
      (.send n ws (.readSecond i second) :: others) cs := by
  have ten : dataHeader = 10 := rfl
  obtain ⟨short, fits, behind, inside⟩ := h.knows _ List.mem_cons_self
  obtain ⟨pre, c, post, rfl, rfl, role, holds, low, high⟩ := h.owned List.mem_cons_self
  rw [Cell.stop_le holds] at behind
  obtain ⟨d, post, rfl, base⟩ := h.contig.next_cell (behind ▸ inside)
  obtain rfl : second = d.base := behind.trans base.symm
  have next := h.holds d (by simp)
  have duty : d.duty = .free := Duty.free_of_mark (next.header.prepare.symm.trans free)
  have h : Partition bufferSize s (.send n ws (.claimSecond c.base d.base) :: others)
      ((pre ++ [c]) ++ [d] ++ post) := by simpa using h
  refine h.mark (d := .busy 0) (by decide) ?_ (fun _ _ => nofun) rfl ?_ rfl ?_
    ⟨short, fits, ?_⟩ ?_
  · rw [duty]
    rfl
  · rw [Cell.token, duty]
    rfl
  · rw [Cell.region, duty]
    exact .of_eq (List.append_nil _)
  · have stop : c.stop = c.base + dataHeader + c.width := rfl
    have same : SameOn s.mem (setPrepare s.mem d.base 1) c.base c.stop :=
      fun x _ _ => setPrepare_outside (by omega)
    exact base.trans (Cell.stop_le (holds.frame same)).symm
  · rintro j ⟨⟩
    exact .inr (.inr (by simp [spotsOf, Cell.spots]))

theorem Partition.merge
    (h : Partition bufferSize s (.send n ws (.addSecond i second more) :: others) cs)
    (small : bufferSize < 2^31) :
    ∃ cs, Partition bufferSize ⟨setSize s.mem i (size s.mem i + more), s.held⟩
      (.send n ws (.restart i) :: others) cs := by
  have ten : dataHeader = 10 := rfl
  have area : dataArea = 3 := rfl
  obtain ⟨short, fits, behind, adds⟩ := h.knows _ List.mem_cons_self
  obtain ⟨d, hd, d_token⟩ := h.token_cell List.mem_cons_self
  obtain ⟨rfl, d_role⟩ := Cell.token_iff.mp d_token
  have d_inside := h.contig.inside hd
  have d_holds := h.holds d hd
  obtain ⟨pre, c, post, rfl, rfl, role, holds, low, high⟩ :=
    h.owned (List.mem_cons_of_mem _ List.mem_cons_self)
  have d_stop : d.stop = d.base + dataHeader + d.width := rfl
  have c_stop : c.stop = c.base + dataHeader + c.width := rfl
  rw [Cell.stop_le holds] at behind
  obtain ⟨d', post, rfl, base⟩ := h.contig.next_cell (by omega)
  have d'_stop : d'.stop = d'.base + dataHeader + d'.width := rfl
  obtain rfl : d' = d := by
    rcases h.contig.trichotomy (c := d') (d := d) (by simp) hd with same | before | after
    · exact same
    · omega
    · omega
  have c_duty := Duty.role_busy role
  have d_duty := Duty.role_busy d_role
  have room : c.width + d'.width + 10 < 2^31 := by omega
  have total : size s.mem c.base + more = (c.width + d'.width + 10 : Nat) := by
    rw [adds, holds.header.size, d_holds.header.size]
    omega
  have joined := Cell.join_holds holds d_holds c_duty d_duty base room
  rw [total]
  clear total
  have h : Partition bufferSize s (.send n ws (.addSecond c.base d'.base more) :: others)
      (pre ++ [c, d'] ++ post) := by simpa using h
  have before : [c, d'].filterMap Cell.token = [(c.base, .busy 0), (d'.base, .busy 0)] := by
    simp [Cell.token, role, d_role]
  have after : [c.join d'].filterMap Cell.token = [(c.base, .busy 0)] := rfl
  have out_before : [c, d'].filterMap Cell.region = [] := by
    simp [Cell.region, c_duty, d_duty, Duty.lends]
  have out_after : [c.join d'].filterMap Cell.region = [] := rfl
  refine ⟨_, h.edit (fun _ _ => Contig.join) ?_ ?_ ?_ ?_ ?_ ?_ ⟨short, fits, trivial⟩ ?_⟩
  · intro x _ apart
    have side := apart c List.mem_cons_self
    exact setSize_outside (by omega)
  · intro e he
    rw [List.mem_singleton.mp he]
    exact joined
  · rw [before]
    exact (List.Perm.swap _ _ _).subset
  · rw [before, after]
    exact (List.perm_append_comm).trans (.append_right _ (.swap _ _ _))
  · rw [out_before, out_after]
  · intro q _ j _ there
    simpa [spotsOf, Cell.spots, Cell.join] using there
  · rintro j ⟨⟩
    exact .inl (by simp [spotsOf, Cell.spots, Cell.join])

/-- The chunk is given back, after a merge or when its neighbour is in use. -/
theorem Partition.give_back {p' : Call} (h : Partition bufferSize s (p :: others) cs)
    (own : p.tokens = [(i, .busy 0)]) (own' : p'.tokens = [])
    (knows : i < bufferSize → ∀ m, p'.Knows bufferSize m)
    (stands : ∀ j, p'.cursor = some j → j = i ∨ j = dataArea) :
    ∃ cs, Partition bufferSize ⟨setPrepare s.mem i 0, s.held⟩ (p' :: others) cs := by
  have ten : dataHeader = 10 := rfl
  obtain ⟨pre, c, post, rfl, rfl, role, holds, low, high⟩ :=
    h.owned (by rw [own]; exact List.mem_singleton_self _)
  have duty := Duty.role_busy role
  have stop : c.stop = c.base + dataHeader + c.width := rfl
  refine h.mark (d := .free) (r := []) (by decide) ?_ (fun _ _ => nofun) rfl ?_ own' ?_
    (knows (by omega) _) fun j hj => (stands j hj).imp_right .inl
  · rw [duty]
    rfl
  · rw [Cell.token, role, own]
    rfl
  · rw [Cell.region, duty]
    exact .of_eq (List.append_nil _)

theorem Partition.lent {r : Region} (h : Partition bufferSize s (p :: others) (pre ++ [c] ++ post))
    (region : c.region = some r) : s.held.Perm (r :: s.held.erase r) := by
  refine List.perm_cons_erase (h.held.mem_iff.mpr ?_)
  exact List.mem_filterMap.mpr ⟨c, by simp, region⟩

theorem Partition.fill {data : Int} {w : Nat × BitVec 8}
    (h : Partition bufferSize s (.send n (w :: ws) (.fill data) :: others) cs) :
    ∃ cs, Partition bufferSize ⟨update s.mem (data + w.1) w.2, s.held⟩
      (.send n ws (.fill data) :: others) cs := by
  have ten : dataHeader = 10 := rfl
  obtain ⟨short, fits, len⟩ := h.knows _ List.mem_cons_self
  have len : length s.mem (data - dataHeader) = n := len
  have inside := fits w List.mem_cons_self
  obtain ⟨pre, c, post, rfl, here, role, holds, low, high⟩ := h.owned List.mem_cons_self
  obtain ⟨k, duty⟩ := Duty.role_filling role
  obtain ⟨known, room⟩ := holds.header.length _ _ duty
  have stop : c.stop = c.base + dataHeader + c.width := rfl
  obtain rfl : k = n := by rw [← known, here, len]
  have clean : c.duty.clean = k := by
    rw [duty]
    rfl
  have same : SameOn s.mem (update s.mem (data + w.1) w.2) c.base (c.base + dataHeader) :=
    Bytes.sameOn_update (by omega)
  have header := holds.header.frame same
  refine h.recast (d := c.duty) (r := []) (fun x _ apart => Function.update_of_ne (by omega) _ _)
    (header.recast rfl rfl header.length) (fun x _ _ => Function.update_of_ne (by omega) _ _)
    ?_ ?_ (.refl _) (.inl (Nat.le_refl _)) ⟨short, fun v hv => fits v (List.mem_cons_of_mem _ hv), ?_⟩ ?_
  · rw [Cell.token, role, here]
    rfl
  · have kept : (c.recast c.duty).token = c.token := rfl
    rw [kept, Cell.token, role, here]
    rfl
  · show length (update s.mem (data + w.1) w.2) (data - dataHeader) = k
    rw [← here, (header.length _ _ duty).1]
  · intro j same
    cases same

theorem Partition.send {data : Int}
    (h : Partition bufferSize s (.send n [] (.fill data) :: others) cs) :
    ∃ cs, Partition bufferSize ⟨setValid s.mem (data - dataHeader) 1,
        ⟨data, n, true⟩ :: s.held.erase ⟨data, n, false⟩⟩ (.send n [] .count :: others) cs := by
  have ten : dataHeader = 10 := rfl
  obtain ⟨short, fits, len⟩ := h.knows _ List.mem_cons_self
  have len : length s.mem (data - dataHeader) = n := len
  obtain ⟨pre, c, post, rfl, here, role, holds, low, high⟩ := h.owned List.mem_cons_self
  obtain ⟨k, duty⟩ := Duty.role_filling role
  obtain ⟨known, room⟩ := holds.header.length _ _ duty
  have stop : c.stop = c.base + dataHeader + c.width := rfl
  obtain rfl : k = n := by rw [← known, here, len]
  have place : c.base + dataHeader = data := by omega
  rw [← here]
  have out : ∀ x, x < c.base ∨ c.base + dataHeader ≤ x → setValid s.mem c.base 1 x = s.mem x :=
    fun x apart => Bytes.write_outside (by omega)
  have before : c.region = some ⟨data, k, false⟩ := by
    rw [Cell.region, duty, place]
    rfl
  have after : (c.recast (.region .sent k)).region = some ⟨data, k, true⟩ := by
    rw [← place]
    rfl
  refine h.recast (d := .region .sent k) (r := []) (fun x _ apart => out x (by omega))
    ⟨?_, ?_, ?_, ?_⟩ (fun x low _ => out x (.inr (by omega))) ?_ rfl ?_ (.inl ?_)
    ⟨short, fits, trivial⟩ fun j => nofun
  · have kept : size (setValid s.mem c.base 1) c.base = size s.mem c.base :=
      congrArg (fun v : Nat => long v) (Bytes.read_write_apart (by omega))
    exact kept.trans holds.header.size
  · have kept : prepare (setValid s.mem c.base 1) c.base = prepare s.mem c.base :=
      Bytes.read_write_apart (by omega)
    exact kept.trans (holds.header.prepare.trans (by rw [duty]; rfl))
  · simp only [Cell.recast, valid, setValid, Bytes.read_write]
    rfl
  · rintro stage l ⟨⟩
    have kept : length (setValid s.mem c.base 1) c.base = length s.mem c.base :=
      Bytes.read_write_apart (by omega)
    exact ⟨kept.trans known, room⟩
  · rw [Cell.token, role, here]
    rfl
  · rw [before, after, Option.toList_some, Option.toList_some]
    have out := h.lent before
    exact (List.perm_append_singleton _ _).trans ((List.Perm.swap _ _ _).trans
      ((out.symm.cons _).trans (List.perm_append_singleton _ _).symm))
  · rw [Cell.clean, duty]
    exact Nat.le_refl _

end Sender

section Reader
variable {bufferSize : Int} {s : Shared} {others : List Call} {cs : List Cell} {i : Int}

theorem Partition.take (h : Partition bufferSize s (.read (.probe i) :: others) cs)
    (inside : i < bufferSize) (ready : valid s.mem i ≠ 0) : valid s.mem i = 1 ∧
    ∃ cs, Partition bufferSize ⟨setValid s.mem i 0, s.held⟩ (.read (.readLength i) :: others) cs := by
  have ten : dataHeader = 10 := rfl
  have stands := h.stands _ List.mem_cons_self i rfl
  obtain ⟨pre, c, post, rfl, here, holds, low, high⟩ := h.stood (stands.resolve_right (by omega))
  obtain ⟨rfl, -, mark⟩ := (holds.marks here).resolve_right (by omega)
  obtain ⟨k, duty⟩ : ∃ k, c.duty = .region .sent k := by
    refine Duty.sent_of_mark ?_
    omega
  obtain ⟨known, room⟩ := holds.header.length _ _ duty
  have stop : c.stop = c.base + dataHeader + c.width := rfl
  have out : ∀ x, x < c.base ∨ c.base + dataHeader ≤ x → setValid s.mem c.base 0 x = s.mem x :=
    fun x apart => Bytes.write_outside (by omega)
  refine ⟨mark.trans (by rw [duty]; rfl), h.recast (d := .region .taken k) (r := [])
    (fun x _ apart => out x (by omega)) ⟨?_, ?_, ?_, ?_⟩ (fun x low _ => out x (.inr (by omega)))
    ?_ rfl ?_ (.inl ?_) trivial ?_⟩
  · have kept : size (setValid s.mem c.base 0) c.base = size s.mem c.base :=
      congrArg (fun v : Nat => long v) (Bytes.read_write_apart (by omega))
    exact kept.trans holds.header.size
  · have kept : prepare (setValid s.mem c.base 0) c.base = prepare s.mem c.base :=
      Bytes.read_write_apart (by omega)
    exact kept.trans (holds.header.prepare.trans (by rw [duty]; rfl))
  · simp only [Cell.recast, valid, setValid, Bytes.read_write]
    rfl
  · rintro stage l ⟨⟩
    have kept : length (setValid s.mem c.base 0) c.base = length s.mem c.base :=
      Bytes.read_write_apart (by omega)
    exact ⟨kept.trans known, room⟩
  · rw [Cell.token, duty]
    rfl
  · rw [Cell.region, duty]
    exact .refl _
  · rw [Cell.clean, duty]
    exact Nat.le_refl _
  · rintro j ⟨⟩
    exact .inl rfl

theorem Partition.handled {len : Nat}
    (h : Partition bufferSize s (.read (.handle i len) :: others) cs) :
    ∃ cs, Partition bufferSize ⟨setPrepare s.mem i 0, s.held.erase ⟨i + dataHeader, len, true⟩⟩
      (.read (.advance i) :: others) cs := by
  have ten : dataHeader = 10 := rfl
  have knows : length s.mem i = len := h.knows _ List.mem_cons_self
  obtain ⟨pre, c, post, rfl, rfl, role, holds, low, high⟩ := h.owned List.mem_cons_self
  obtain ⟨k, duty⟩ := Duty.role_taken role
  have stop : c.stop = c.base + dataHeader + c.width := rfl
  obtain rfl : k = len := by rw [← (holds.header.length _ _ duty).1, knows]
  have inside : c.base < bufferSize := by omega
  have before : c.region = some ⟨c.base + dataHeader, k, true⟩ := by
    rw [Cell.region, duty]
    rfl
  refine h.mark (d := .free) (r := []) (by decide) ?_ (fun _ _ => nofun) rfl ?_ rfl ?_ inside ?_
  · rw [duty]
    rfl
  · rw [Cell.token, role]
    rfl
  · rw [before]
    exact (List.perm_append_singleton _ _).trans (h.lent before).symm
  · rintro j ⟨⟩
    exact .inl rfl

end Reader
end LMalz.Buffer
