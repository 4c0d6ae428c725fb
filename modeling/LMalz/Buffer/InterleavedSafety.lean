import LMalz.Buffer.InterleavedSteps
import LMalz.Buffer.Invariant

/- The partition is kept by every step under the guard, and says that the calls are safe. -/
namespace LMalz.Buffer
open Function (update)
open Bytes (Memory SameOn)
open Transition (Run Guarded)
open Interleaving (Config Before exec exec_run guardedExec guardedExec_run)

section Step
variable {bufferSize : Int} {s s' : Shared} {others : List Call} {n : Nat}
  {ws : List (Nat × BitVec 8)} {pc : SendPc} {rpc : ReadPc} {p p' : Call} {cs : List Cell} {i : Int}

theorem setExisting_outside {m : Memory} {v : Nat} {x : Int} (out : dataArea ≤ x) :
    setExisting m v x = m x := by
  have area : dataArea = 3 := rfl
  exact Bytes.write_outside (by omega)

theorem Partition.read (h : Partition bufferSize s (p :: others) cs)
    (tokens : p'.tokens = p.tokens) (knows : p'.Knows bufferSize s.mem)
    (stands : ∀ j, p'.cursor = some j → j ∈ spotsOf cs ∨ j = bufferSize) :
    ∃ cs, Partition bufferSize s (p' :: others) cs :=
  ⟨cs, h.still (fun _ _ => rfl) tokens knows stands⟩

theorem Partition.keep (h : Partition bufferSize s (p :: others) cs)
    (tokens : p'.tokens = p.tokens) (knows : p'.Knows bufferSize s.mem)
    (stands : p'.cursor = p.cursor) : ∃ cs, Partition bufferSize s (p' :: others) cs :=
  h.read tokens knows fun j hj => h.stands _ List.mem_cons_self j (stands ▸ hj)

theorem Partition.owned_size {r : Role} (h : Partition bufferSize s (p :: others) cs)
    (ht : (i, r) ∈ p.tokens) (small : bufferSize < 2^31) :
    0 ≤ size s.mem i ∧ size s.mem i < 2^31 ∧ i < bufferSize := by
  have ten : dataHeader = 10 := rfl
  have area : dataArea = 3 := rfl
  obtain ⟨pre, c, post, rfl, rfl, role, holds, low, high⟩ := h.owned ht
  have stop : c.stop = c.base + dataHeader + c.width := rfl
  rw [holds.header.size]
  exact ⟨by omega, by omega, by omega⟩

theorem Partition.send_step (h : Partition bufferSize s (.send n ws pc :: others) cs)
    (small : bufferSize < 2^31) (clear : Call.Clear others (.send n ws pc))
    (step : pc.next bufferSize n ws s = some (s', p')) :
    ∃ cs, Partition bufferSize s' (p' :: others) cs := by
  have ten : dataHeader = 10 := rfl
  have knows := h.knows _ List.mem_cons_self
  obtain ⟨short, fits, known⟩ := knows
  cases pc with
  | claim i =>
      simp only [SendPc.next] at step
      split at step
      · next inside =>
          split at step
          · next free =>
              cases step
              exact h.claim inside free
          · cases step
            exact h.keep rfl ⟨short, fits, inside⟩ rfl
      · cases step
        exact h.read rfl ⟨short, fits, trivial⟩ fun j same => by cases same
  | testDivide i =>
      have sized := h.owned_size List.mem_cons_self small
      simp only [SendPc.next] at step
      split at step
      · next room =>
          cases step
          rw [Int.emod_eq_of_lt sized.1 (by omega)] at room
          exact h.keep rfl ⟨short, fits, room⟩ rfl
      · cases step
        exact h.keep rfl ⟨short, fits, trivial⟩ rfl
  | divideLength i =>
      cases step
      have room : n + dataHeader ≤ size s.mem i := known
      exact h.carve rfl rfl room (fun x apart => Bytes.write_outside (by omega))
        (.inr (clear _ rfl))
        (fun kept => ⟨short, fits, room.trans_eq kept.symm⟩) rfl
  | divideValid i =>
      cases step
      have room : n + dataHeader ≤ size s.mem i := known
      refine h.carve rfl rfl room (fun x apart => Bytes.write_outside (by omega)) (.inl le_rfl)
        (fun kept => ⟨short, fits, room.trans_eq kept.symm, ?_⟩) rfl
      simp only [valid, setValid, Bytes.read_write]
      rfl
  | dividePrepare i =>
      cases step
      obtain ⟨room, val⟩ := known
      refine h.carve rfl rfl room (fun x apart => Bytes.write_outside (by omega)) (.inl le_rfl)
        (fun kept => ⟨short, fits, room.trans_eq kept.symm, ?_, ?_⟩) rfl
      · rw [← val]
        exact Bytes.read_write_apart (by omega)
      · simp only [prepare, setPrepare, Bytes.read_write]
        rfl
  | divideRead i =>
      cases step
      obtain ⟨room, val, prep⟩ := known
      exact h.keep rfl ⟨short, fits, room, val, prep, rfl⟩ rfl
  | divideSize i rest =>
      cases step
      obtain ⟨room, val, prep, stores⟩ := known
      have sized := h.owned_size List.mem_cons_self small
      refine h.carve rfl rfl room (fun x apart => setSize_outside (by omega)) (.inl le_rfl)
        (fun kept => ⟨short, fits, room.trans_eq kept.symm, ?_, ?_, ?_⟩) rfl
      · rw [← val]
        exact Bytes.read_write_apart (by omega)
      · rw [← prep]
        exact Bytes.read_write_apart (by omega)
      · rw [kept, ← stores]
        have stored := long_stored (v := rest) (by omega) (by omega)
        simpa only [size, setSize, Bytes.read_write] using stored
  | shrink i =>
      cases step
      exact h.shrink
  | storeLength i =>
      cases step
      exact h.hand clear
  | testFit i =>
      simp only [SendPc.next] at step
      split at step
      · next room =>
          cases step
          exact h.keep rfl ⟨short, fits, room⟩ rfl
      · cases step
        exact h.keep rfl ⟨short, fits, trivial⟩ rfl
  | findSecond i =>
      simp only [SendPc.next] at step
      split at step
      · next inside =>
          cases step
          exact h.keep rfl ⟨short, fits, rfl, inside⟩ rfl
      · cases step
        exact h.lose
  | claimSecond i second =>
      simp only [SendPc.next] at step
      split at step
      · next free =>
          cases step
          exact h.claimSecond free
      · cases step
        exact h.keep rfl ⟨short, fits, trivial⟩ rfl
  | readSecond i second =>
      cases step
      exact h.keep rfl ⟨short, fits, known, rfl⟩ rfl
  | addSecond i second more =>
      cases step
      exact h.merge small
  | restart i =>
      cases step
      exact h.give_back rfl rfl (fun _ _ => ⟨short, fits, trivial⟩) fun j hj =>
        .inr (Option.some.inj hj).symm
  | release i =>
      cases step
      exact h.give_back rfl rfl (fun inside _ => ⟨short, fits, inside⟩) fun j hj =>
        .inl (Option.some.inj hj).symm
  | advance i =>
      cases step
      have there := h.stands _ List.mem_cons_self i rfl
      have inside : i < bufferSize := known
      refine h.read rfl ⟨short, fits, trivial⟩ ?_
      rintro j ⟨⟩
      exact h.advance (there.resolve_right (by omega))
  | refused => cases step
  | fill data =>
      cases ws with
      | nil =>
          cases step
          exact h.send
      | cons w ws =>
          cases step
          exact h.fill
  | count =>
      cases step
      exact ⟨cs, h.still (fun _ => setExisting_outside) rfl ⟨short, fits, trivial⟩
        fun j same => by cases same⟩
  | sent => cases step

theorem Partition.read_step (h : Partition bufferSize s (.read rpc :: others) cs)
    (step : rpc.next bufferSize s = some (s', p')) :
    ∃ cs, Partition bufferSize s' (p' :: others) cs := by
  have known := h.knows _ List.mem_cons_self
  cases rpc with
  | enter =>
      simp only [ReadPc.next] at step
      split at step
      · cases step
        refine ⟨cs, h.still (fun _ => setExisting_outside) rfl trivial ?_⟩
        rintro j ⟨⟩
        exact h.contig.start_spot
      · cases step
        exact ⟨cs, h.still (fun _ => setExisting_outside) rfl trivial fun j => nofun⟩
  | undo =>
      cases step
      exact ⟨cs, h.still (fun _ => setExisting_outside) rfl trivial fun j => nofun⟩
  | probe i =>
      simp only [ReadPc.next] at step
      split at step
      · next inside =>
          split at step
          · next ready =>
              obtain ⟨mark, taken⟩ := h.take inside ready
              cases step
              rw [if_pos mark]
              exact taken
          · next none =>
              cases step
              rw [if_neg (by omega)]
              exact h.keep rfl inside rfl
      · cases step
        exact h.read rfl trivial fun j => nofun
  | readLength i =>
      cases step
      exact h.keep rfl rfl rfl
  | handle i len =>
      cases step
      exact h.handled
  | advance i =>
      cases step
      have there := h.stands _ List.mem_cons_self i rfl
      have inside : i < bufferSize := known
      refine h.read rfl trivial ?_
      rintro j ⟨⟩
      exact h.advance (there.resolve_right (by omega))
  | done => cases step

theorem Partition.step (h : Partition bufferSize s (p :: others) cs) (small : bufferSize < 2^31)
    (clear : p.Clear others) (step : p.next bufferSize s = some (s', p')) :
    ∃ cs, Partition bufferSize s' (p' :: others) cs := by
  cases p with
  | send n ws pc => exact h.send_step small clear step
  | read pc => exact h.read_step step

end Step

section Safe
variable {bufferSize : Int} {s : Shared} {others ps : List Call} {p : Call} {cs : List Cell}
  {c : Cell} {m : Memory} {r : Region} {i j : Int}

theorem Cell.Holds.lends (h : c.Holds m) (region : c.region = some r) :
    r.data = c.base + dataHeader ∧ r.len = c.clean ∧ r.data + r.len ≤ c.stop := by
  have stop : c.stop = c.base + dataHeader + c.width := rfl
  rw [Cell.region] at region
  cases hd : c.duty with
  | region stage n =>
      obtain ⟨-, room⟩ := h.header.length _ _ hd
      rw [hd] at region
      cases region
      refine ⟨rfl, ?_, ?_⟩
      · rw [Cell.clean, hd]
        rfl
      · dsimp only
        omega
  | _ =>
      rw [hd] at region
      cases region

theorem Partition.region_cell (h : Partition bufferSize s ps cs) (hr : r ∈ s.held) :
    ∃ c ∈ cs, c.region = some r :=
  List.mem_filterMap.mp (h.held.mem_iff.mp hr)

theorem Partition.disjoint (h : Partition bufferSize s ps cs) : s.held.Pairwise
    fun (r q : Region) => r.data + r.len ≤ q.data ∨ q.data + q.len ≤ r.data := by
  have ten : dataHeader = 10 := rfl
  refine (h.held.pairwise_iff fun side => side.symm).mpr (List.pairwise_filterMap.mpr ?_)
  refine h.contig.apart.imp_of_mem ?_
  intro c d hc hd order r hr q hq
  have first := (h.holds c hc).lends hr
  have second := (h.holds d hd).lends hq
  left
  omega

theorem Partition.header_apart (h : Partition bufferSize s ps cs) (hj : j ∈ spotsOf cs)
    (hr : r ∈ s.held) : j + dataHeader ≤ r.data ∨ r.data + r.len ≤ j := by
  have ten : dataHeader = 10 := rfl
  obtain ⟨c, hc, region⟩ := h.region_cell hr
  obtain ⟨data, len, inside⟩ := (h.holds c hc).lends region
  obtain ⟨d, hd, there⟩ := List.mem_flatMap.mp hj
  have stop : d.stop = d.base + dataHeader + d.width := rfl
  rcases List.mem_cons.mp there with rfl | stale
  · rcases h.contig.trichotomy hd hc with rfl | before | after
    · omega
    · omega
    · omega
  · obtain ⟨low, high, -⟩ := (h.holds d hd).stale j stale
    rcases h.contig.trichotomy hd hc with rfl | before | after
    · omega
    · omega
    · omega

theorem Partition.spot_inside (h : Partition bufferSize s ps cs) (hj : j ∈ spotsOf cs) :
    dataArea ≤ j ∧ j + dataHeader ≤ bufferSize := by
  have ten : dataHeader = 10 := rfl
  obtain ⟨d, hd, there⟩ := List.mem_flatMap.mp hj
  have inside := h.contig.inside hd
  have stop : d.stop = d.base + dataHeader + d.width := rfl
  rcases List.mem_cons.mp there with rfl | stale
  · omega
  · obtain ⟨low, high, -⟩ := (h.holds d hd).stale j stale
    omega

theorem Partition.owned_spot {t : Role} (h : Partition bufferSize s (p :: others) cs)
    (ht : (i, t) ∈ p.tokens) : i ∈ spotsOf cs := by
  obtain ⟨c, hc, token⟩ := h.token_cell ht
  obtain ⟨rfl, -⟩ := Cell.token_iff.mp token
  exact List.mem_flatMap.mpr ⟨c, hc, List.mem_cons_self⟩

/-- The header that a producer makes lies in the chunk it divides. -/
theorem Partition.new_header {n k : Nat} (h : Partition bufferSize s (p :: others) cs)
    (ht : (i, .busy k) ∈ p.tokens) (room : n + dataHeader ≤ size s.mem i) :
    ∃ c ∈ cs, c.region = none ∧ c.base ≤ i + dataHeader + n ∧
      i + dataHeader + n + dataHeader ≤ c.stop := by
  have ten : dataHeader = 10 := rfl
  obtain ⟨pre, c, post, rfl, rfl, role, holds, -⟩ := h.owned ht
  have duty := Duty.role_busy role
  have stop : c.stop = c.base + dataHeader + c.width := rfl
  rw [holds.header.size] at room
  refine ⟨c, by simp, ?_, by omega, by omega⟩
  rw [Cell.region, duty]
  rfl

/-- Every header a step takes bytes for is one to be walked over or one just made. -/
theorem Partition.access (h : Partition bufferSize s (p :: others) cs)
    (hj : p.access bufferSize = some j) : j ∈ spotsOf cs ∨
      ∃ c ∈ cs, c.region = none ∧ c.base ≤ j ∧ j + dataHeader ≤ c.stop := by
  have knows := h.knows _ List.mem_cons_self
  have stands := h.stands _ List.mem_cons_self
  have walked : ∀ i, p.cursor = some i → i < bufferSize → i ∈ spotsOf cs := fun i hi inside =>
    (stands i hi).resolve_right (by omega)
  cases p with
  | send n ws pc =>
      obtain ⟨-, -, known⟩ := knows
      cases pc with
      | claim i =>
          obtain ⟨inside, rfl⟩ : j < bufferSize ∧ j = i := by
            simp only [Call.access, SendPc.access, Option.ite_none_right_eq_some,
              Option.some.injEq] at hj
            omega
          exact .inl (walked _ rfl inside)
      | divideLength i | divideValid i =>
          cases hj
          exact .inr (h.new_header List.mem_cons_self known)
      | dividePrepare i | divideSize i rest =>
          cases hj
          exact .inr (h.new_header List.mem_cons_self known.1)
      | claimSecond i second =>
          cases hj
          obtain ⟨rfl, inside⟩ := known
          have behind := h.advance (h.owned_spot List.mem_cons_self)
          exact .inl (behind.resolve_right (by omega))
      | advance i =>
          cases hj
          exact .inl (walked _ rfl known)
      | addSecond i second more =>
          cases hj
          exact .inl (h.owned_spot (List.mem_cons_of_mem _ List.mem_cons_self))
      | testDivide i | divideRead i | shrink i | storeLength i | testFit i | findSecond i
      | readSecond i second | restart i | release i | fill data =>
          cases hj
          exact .inl (h.owned_spot List.mem_cons_self)
      | refused | count | sent => cases hj
  | read pc =>
      cases pc with
      | probe i =>
          obtain ⟨inside, rfl⟩ : j < bufferSize ∧ j = i := by
            simp only [Call.access, ReadPc.access, Option.ite_none_right_eq_some,
              Option.some.injEq] at hj
            omega
          exact .inl (walked _ rfl inside)
      | readLength i | handle i len =>
          cases hj
          exact .inl (h.owned_spot List.mem_cons_self)
      | advance i =>
          cases hj
          exact .inl (walked _ rfl knows)
      | enter | undo | done => cases hj

theorem Partition.foremost (h : Partition bufferSize s ps cs) (hp : p ∈ ps) :
    ∃ others, Partition bufferSize s (p :: others) cs := by
  obtain ⟨front, back, rfl⟩ := List.append_of_mem hp
  exact ⟨front ++ back, h.order List.perm_middle⟩

theorem Partition.safe (h : Partition bufferSize s ps cs) : Safe bufferSize ⟨s, ps⟩ where
  disjoint := h.disjoint
  headers := by
    have ten : dataHeader = 10 := rfl
    intro p hp j hj r hr
    obtain ⟨others, h⟩ := h.foremost hp
    rcases h.access hj with spot | ⟨d, hd, none, low, high⟩
    · exact h.header_apart spot hr
    · obtain ⟨c, hc, region⟩ := h.region_cell hr
      obtain ⟨data, -, inside⟩ := (h.holds c hc).lends region
      rcases h.contig.trichotomy hd hc with rfl | before | after
      · rw [none] at region
        cases region
      · omega
      · omega
  inside := by
    have ten : dataHeader = 10 := rfl
    have area : dataArea = 3 := rfl
    intro p hp j hj
    obtain ⟨others, h⟩ := h.foremost hp
    rcases hj with stands | takes
    · rcases h.stands p List.mem_cons_self j stands with spot | rfl
      · exact (h.spot_inside spot).imp_right .inl
      · exact ⟨h.contig.le, .inr rfl⟩
    · rcases h.access takes with spot | ⟨d, hd, -, low, high⟩
      · exact (h.spot_inside spot).imp_right .inl
      · have inside := h.contig.inside hd
        omega
  sent := by
    intro i len hp
    obtain ⟨others, h⟩ := h.foremost hp
    have known : length s.mem i = len := h.knows _ List.mem_cons_self
    obtain ⟨pre, c, post, rfl, rfl, role, holds, -⟩ := h.owned List.mem_cons_self
    obtain ⟨k, duty⟩ := Duty.role_taken role
    obtain rfl : k = len := (holds.header.length _ _ duty).1.symm.trans known
    refine h.held.mem_iff.mpr (List.mem_filterMap.mpr ⟨c, by simp, ?_⟩)
    rw [Cell.region, duty]
    rfl

end Safe

section Runs
variable {bufferSize : Nat} {s : State} {ps : List Call} {ks : List Nat}

theorem Initial.partition (low : headSize ≤ bufferSize) (high : bufferSize < 2^31)
    (start : Initial bufferSize s) (starts : ∀ p ∈ ps, p.Starts) :
    Partition bufferSize ⟨s.mem, []⟩ ps [⟨dataArea, bufferSize - 13, .free, []⟩] := by
  have area : dataArea = 3 := rfl
  obtain ⟨⟨⟨sized, val, prep⟩, ends⟩, -⟩ := start.tiled low high
  refine ⟨⟨rfl, ends⟩, ?_, ?_, .nil, ?_, ?_⟩
  · intro c hc
    rw [List.mem_singleton.mp hc]
    exact ⟨⟨sized, prep, val, fun _ _ => nofun⟩, fun _ => nofun⟩
  · have none : ps.flatMap Call.tokens = [] := by
      refine List.flatMap_eq_nil_iff.mpr fun p hp => ?_
      cases p with
      | send n ws pc =>
          obtain ⟨-, -, rfl⟩ := starts _ hp
          rfl
      | read pc =>
          obtain rfl := starts _ hp
          rfl
    rw [none]
    exact .nil
  · intro p hp
    cases p with
    | send n ws pc =>
        obtain ⟨short, fits, rfl⟩ := starts _ hp
        exact ⟨short, fits, trivial⟩
    | read pc =>
        obtain rfl := starts _ hp
        trivial
  · intro p hp j hj
    cases p with
    | send n ws pc =>
        obtain ⟨-, -, rfl⟩ := starts _ hp
        cases hj
        exact .inl List.mem_cons_self
    | read pc =>
        obtain rfl := starts _ hp
        cases hj

theorem Initial.partitioned {c : Config Shared Call} (low : headSize ≤ bufferSize)
    (high : bufferSize < 2^31) (start : Initial bufferSize s) (starts : ∀ p ∈ ps, p.Starts)
    (run : Run (Guarded (CallStep bufferSize) ClearStep) ⟨⟨s.mem, []⟩, ps⟩ ks c) :
    ∃ cs, Partition bufferSize c.mem c.procs cs := by
  refine Interleaving.keeps (I := fun m ps => ∃ cs, Partition bufferSize m ps cs) ?_ ?_ run
    ⟨_, start.partition low high starts⟩
  · rintro m ps qs perm ⟨cs, h⟩
    exact ⟨cs, h.order perm⟩
  · rintro m p m' p' others ⟨cs, h⟩ clear moved
    exact h.step (by omega) clear moved

/-- Every state is safe as long as a PrepareData gives away no bytes in which another call
stands. -/
theorem interleaved_safe {c : Config Shared Call} (low : headSize ≤ bufferSize)
    (high : bufferSize < 2^31) (start : Initial bufferSize s) (starts : ∀ p ∈ ps, p.Starts)
    (run : Run (Guarded (CallStep bufferSize) ClearStep) ⟨⟨s.mem, []⟩, ps⟩ ks c) :
    Safe bufferSize c := by
  obtain ⟨cs, h⟩ := start.partitioned low high starts run
  exact h.safe

/-- A second producer walks past the chunk the first one divides, and takes its region while
the reader hands out the first one. -/
theorem interleaved_safe_two_producers :
    ∃ ks c, Run (Guarded (CallStep (64 : Nat)) ClearStep)
        ⟨⟨orShaIo (fun _ => 0) 64, []⟩, [.send 1 [(0, 7)] (.claim dataArea),
          .send 2 [] (.claim dataArea), .read .enter]⟩ ks c ∧
      c.mem.held = [⟨24, 2, false⟩, ⟨13, 1, true⟩] ∧ Safe (64 : Nat) c := by
  have runs : ((guardedExec (fun s (c : Call) => c.next (64 : Nat) s) (fun _ c qs => c.Clear qs)
      ⟨⟨orShaIo (fun _ => 0) 64, []⟩, [.send 1 [(0, 7)] (.claim dataArea),
        .send 2 [] (.claim dataArea), .read .enter]⟩
      [0, 1, 0, 0, 0, 0, 0, 0, 0, 1, 0, 1, 1, 0, 0, 0, 2, 2, 2, 1, 1, 1, 1, 1, 1, 1]).map
        fun c => c.mem.held) = some [⟨24, 2, false⟩, ⟨13, 1, true⟩] := by
    decide +kernel
  obtain ⟨c, done, held⟩ := Option.map_eq_some_iff.mp runs
  have run := guardedExec_run done
  have start : Initial 64 ⟨orShaIo (fun _ => 0) 64, []⟩ := ⟨fun _ => 0, fun _ _ _ => rfl, rfl⟩
  refine ⟨_, c, run, held, interleaved_safe (by decide) (by decide) start ?_ run⟩
  simp [Call.Starts]

/-- The chunk at 14 is merged away while another producer is about to try it. Its old header
lies in the region of 12 bytes then, where the owner clears the mark; the other producer takes
the header and is given a region inside. -/
theorem interleaved_regions_overlap :
    ∃ ks c, Run (CallStep (64 : Nat))
        ⟨⟨orShaIo (fun _ => 0) 64, []⟩, [.send 1 [] (.claim dataArea),
          .send 1 [] (.claim dataArea), .read .enter, .send 12 [(3, 0)] (.claim dataArea),
          .send 1 [] (.claim dataArea)]⟩ ks c ∧
      ¬ Safe (64 : Nat) c := by
  -- two packets of one byte, the last producer up to 14, the reader, the merge and its region
  have runs : ((exec (fun s (c : Call) => c.next (64 : Nat) s)
      ⟨⟨orShaIo (fun _ => 0) 64, []⟩, [.send 1 [] (.claim dataArea),
        .send 1 [] (.claim dataArea), .read .enter, .send 12 [(3, 0)] (.claim dataArea),
        .send 1 [] (.claim dataArea)]⟩
      (List.replicate 11 0 ++ List.replicate 13 1 ++ List.replicate 2 4 ++ List.replicate 8 2 ++
        List.replicate 13 3 ++ List.replicate 4 4)).map
        fun c => c.mem.held) = some [⟨24, 1, false⟩, ⟨13, 12, false⟩] := by
    decide +kernel
  obtain ⟨c, done, held⟩ := Option.map_eq_some_iff.mp runs
  refine ⟨_, c, exec_run done, fun safe => ?_⟩
  have disjoint := safe.disjoint
  rw [held] at disjoint
  revert disjoint
  decide

end Runs
end LMalz.Buffer
