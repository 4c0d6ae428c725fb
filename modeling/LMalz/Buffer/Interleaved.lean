import LMalz.Buffer.OrShaIo
import LMalz.Lib.Interleaving

/- OR_SHA_IO with one step for each Interlocked operation, each read of a header field and
each byte a producer writes. -/
namespace LMalz.Buffer
open Function (update)
open Bytes (Memory)
open Transition (Run Guarded)
open Interleaving (Config Before)

/-- A region from the return of PrepareData until the reader gives it back. -/
structure Region where
  data : Int
  len : Nat
  sent : Bool
  deriving DecidableEq, Repr

/-- The buffer, with the regions that are out. -/
structure Shared where
  mem : Memory
  held : List Region

/-- The next access of PrepareData, and then of the producer and SendData. `i` is the loop
variable, `second` is data_p_2. -/
inductive SendPc where
  | claim (i : Int)
  | testDivide (i : Int)
  -- the exchanges of the branch that divides, with the read of `size` between them
  | divideLength (i : Int)
  | divideValid (i : Int)
  | dividePrepare (i : Int)
  | divideRead (i : Int)
  | divideSize (i : Int) (rest : Int)
  | shrink (i : Int)
  | storeLength (i : Int)
  | testFit (i : Int)
  -- the branch that merges
  | findSecond (i : Int)
  | claimSecond (i second : Int)
  | readSecond (i second : Int)
  | addSecond (i second more : Int)
  | restart (i : Int)
  | release (i : Int)
  | advance (i : Int)
  | refused
  | fill (data : Int)
  | count
  | sent
  deriving DecidableEq, Repr

/-- The next access of ReadData. -/
inductive ReadPc where
  | enter
  | undo
  | probe (i : Int)
  | readLength (i : Int)
  | handle (i : Int) (len : Nat)
  | advance (i : Int)
  | done
  deriving DecidableEq, Repr

/-- A run of PrepareData(n) with the bytes its producer will write and then of SendData, or
a run of ReadData. -/
inductive Call where
  | send (n : Nat) (writes : List (Nat × BitVec 8)) (pc : SendPc)
  | read (pc : ReadPc)

namespace SendPc

/-- One step of a producer; `none` once it has returned. -/
def next (bufferSize : Int) (n : Nat) (ws : List (Nat × BitVec 8)) (s : Shared) :
    SendPc → Option (Shared × Call)
  | .claim i =>
      if i < bufferSize then
        if prepare s.mem i = 0 then
          some ({ s with mem := setPrepare s.mem i 1 }, .send n ws (.testDivide i))
        else some (s, .send n ws (.advance i))
      else some (s, .send n ws .refused)
  | .testDivide i =>
      if n + dataHeader ≤ size s.mem i % 2^64 then some (s, .send n ws (.divideLength i))
      else some (s, .send n ws (.testFit i))
  | .divideLength i =>
      some ({ s with mem := setLength s.mem (i + dataHeader + n) 0 }, .send n ws (.divideValid i))
  | .divideValid i =>
      some ({ s with mem := setValid s.mem (i + dataHeader + n) 0 }, .send n ws (.dividePrepare i))
  | .dividePrepare i =>
      some ({ s with mem := setPrepare s.mem (i + dataHeader + n) 0 }, .send n ws (.divideRead i))
  | .divideRead i =>
      some (s, .send n ws (.divideSize i (size s.mem i - n - dataHeader)))
  | .divideSize i rest =>
      some ({ s with mem := setSize s.mem (i + dataHeader + n) rest }, .send n ws (.shrink i))
  | .shrink i => some ({ s with mem := setSize s.mem i n }, .send n ws (.storeLength i))
  | .storeLength i =>
      some (⟨setLength s.mem i n, ⟨i + dataHeader, n, false⟩ :: s.held⟩,
        .send n ws (.fill (i + dataHeader)))
  | .testFit i =>
      if n ≤ size s.mem i then some (s, .send n ws (.storeLength i))
      else some (s, .send n ws (.findSecond i))
  | .findSecond i =>
      if i + dataHeader + size s.mem i < bufferSize then
        some (s, .send n ws (.claimSecond i (i + dataHeader + size s.mem i)))
      else some (s, .send n ws (.advance i))
  | .claimSecond i second =>
      if prepare s.mem second = 0 then
        some ({ s with mem := setPrepare s.mem second 1 }, .send n ws (.readSecond i second))
      else some (s, .send n ws (.release i))
  | .readSecond i second =>
      some (s, .send n ws (.addSecond i second (size s.mem second + dataHeader)))
  | .addSecond i _ more =>
      some ({ s with mem := setSize s.mem i (size s.mem i + more) }, .send n ws (.restart i))
  | .restart i => some ({ s with mem := setPrepare s.mem i 0 }, .send n ws (.claim dataArea))
  | .release i => some ({ s with mem := setPrepare s.mem i 0 }, .send n ws (.advance i))
  | .advance i => some (s, .send n ws (.claim (i + dataHeader + size s.mem i)))
  | .fill data => match ws with
      | [] => some (⟨setValid s.mem (data - dataHeader) 1,
          ⟨data, n, true⟩ :: s.held.erase ⟨data, n, false⟩⟩, .send n [] .count)
      | w :: ws => some ({ s with mem := update s.mem (data + w.1) w.2 }, .send n ws (.fill data))
  | .count => some ({ s with mem := setExisting s.mem (existing s.mem + 1) }, .send n ws .sent)
  | .refused => none
  | .sent => none

/-- The loop variable. -/
def cursor : SendPc → Option Int
  | .claim i | .testDivide i | .divideLength i | .divideValid i | .dividePrepare i
  | .divideRead i | .divideSize i _ | .shrink i | .storeLength i | .testFit i | .findSecond i
  | .claimSecond i _ | .readSecond i _ | .addSecond i _ _ | .restart i | .release i
  | .advance i => some i
  | .refused | .fill _ | .count | .sent => none

/-- The header the next step takes bytes for. -/
def access (bufferSize : Int) (n : Nat) : SendPc → Option Int
  | .claim i => if i < bufferSize then some i else none
  | .divideLength i | .divideValid i | .dividePrepare i | .divideSize i _ =>
      some (i + dataHeader + n)
  | .testDivide i | .divideRead i | .shrink i | .storeLength i | .testFit i | .findSecond i
  | .addSecond i _ _ | .restart i | .release i | .advance i => some i
  | .claimSecond _ second | .readSecond _ second => some second
  | .fill data => some (data - dataHeader)
  | .refused | .count | .sent => none

end SendPc

namespace ReadPc

/-- One step of the reader. The handler runs between the read of `Length` and the exchange
that gives the region back. -/
def next (bufferSize : Int) (s : Shared) : ReadPc → Option (Shared × Call)
  | .enter =>
      let m := setExisting s.mem (existing s.mem + 0xffff)
      if existing m < 0x8000 then some ({ s with mem := m }, .read (.probe dataArea))
      else some ({ s with mem := m }, .read .undo)
  | .undo => some ({ s with mem := setExisting s.mem (existing s.mem + 1) }, .read .done)
  | .probe i =>
      if i < bufferSize then
        let old := valid s.mem i
        let m := if old = 1 then setValid s.mem i 0 else s.mem
        if old ≠ 0 then some ({ s with mem := m }, .read (.readLength i))
        else some ({ s with mem := m }, .read (.advance i))
      else some (s, .read .done)
  | .readLength i => some (s, .read (.handle i (length s.mem i)))
  | .handle i len =>
      some (⟨setPrepare s.mem i 0, s.held.erase ⟨i + dataHeader, len, true⟩⟩, .read (.advance i))
  | .advance i => some (s, .read (.probe (i + dataHeader + size s.mem i)))
  | .done => none

def cursor : ReadPc → Option Int
  | .probe i | .readLength i | .handle i _ | .advance i => some i
  | .enter | .undo | .done => none

def access (bufferSize : Int) : ReadPc → Option Int
  | .probe i => if i < bufferSize then some i else none
  | .readLength i | .handle i _ | .advance i => some i
  | .enter | .undo | .done => none

end ReadPc

namespace Call

def next (bufferSize : Int) (s : Shared) : Call → Option (Shared × Call)
  | .send n ws pc => pc.next bufferSize n ws s
  | .read pc => pc.next bufferSize s

def cursor : Call → Option Int
  | .send _ _ pc => pc.cursor
  | .read pc => pc.cursor

def access (bufferSize : Int) : Call → Option Int
  | .send n _ pc => pc.access bufferSize n
  | .read pc => pc.access bufferSize

/-- A call that has not begun. Producers write only inside the region they will get. -/
def Starts : Call → Prop
  | .send n ws pc => n < 2^16 ∧ (∀ w ∈ ws, w.1 < n) ∧ pc = .claim dataArea
  | .read pc => pc = .enter

/-- The bytes behind a header that this step begins to give away: those of the region, and
of the new header behind it when the chunk is divided. -/
def gives : Call → Option (Int × Int)
  | .send n _ (.divideLength i) => some (i, i + dataHeader + n + dataHeader)
  | .send n _ (.storeLength i) => some (i, i + dataHeader + n)
  | _ => none

/-- No other call stands inside the bytes that this step gives away. -/
def Clear (others : List Call) (c : Call) : Prop :=
  ∀ g ∈ c.gives, ∀ q ∈ others, ∀ j ∈ q.cursor, j ≤ g.1 ∨ g.2 ≤ j

instance (others : List Call) (c : Call) : Decidable (c.Clear others) :=
  inferInstanceAs (Decidable (∀ g ∈ c.gives, ∀ q ∈ others, ∀ j ∈ q.cursor, j ≤ g.1 ∨ g.2 ≤ j))

end Call

abbrev CallStep (bufferSize : Int) : Config Shared Call → Nat → Config Shared Call → Prop :=
  Interleaving.Step fun s c s' c' => c.next bufferSize s = some (s', c')

def ClearStep : Config Shared Call → Nat → Prop := Before fun _ c others => c.Clear others

/-- What must hold in every state. -/
structure Safe (bufferSize : Int) (c : Config Shared Call) : Prop where
  disjoint : c.mem.held.Pairwise fun (r q : Region) => r.data + r.len ≤ q.data ∨ q.data + q.len ≤ r.data
  headers : ∀ p ∈ c.procs, ∀ j, p.access bufferSize = some j → ∀ r ∈ c.mem.held,
    j + dataHeader ≤ r.data ∨ r.data + r.len ≤ j
  inside : ∀ p ∈ c.procs, ∀ j, p.cursor = some j ∨ p.access bufferSize = some j →
    dataArea ≤ j ∧ (j + dataHeader ≤ bufferSize ∨ j = bufferSize)
  sent : ∀ i len, .read (.handle i len) ∈ c.procs → ⟨i + dataHeader, len, true⟩ ∈ c.mem.held

end LMalz.Buffer
