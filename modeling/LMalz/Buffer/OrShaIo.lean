import LMalz.Lib.Bytes
import LMalz.Lib.Loop
import LMalz.Lib.Transition

/- OR_SHA_IO: packets in a shared buffer. Addresses are offsets from `buffer`. -/
namespace LMalz.Buffer
open Function (update)
open Bytes (Memory)

/-- The value a `long` holds after arithmetic on it. -/
def long (x : Int) : Int := x.bmod (2^32)

/-- sizeof(OR_SHA_IO_DATA), the offset of `data` in it. -/
def dataHeader : Int := 10

/-- sizeof(OR_SHA_IO_HEAD). -/
def headSize : Int := 13

/-- The offset of `data_area` in OR_SHA_IO_HEAD. -/
def dataArea : Int := 3

section Fields
variable (m : Memory) (i : Int)

def initialization : Nat := Bytes.read m 0 1
def existing : Nat := Bytes.read m 1 2
def valid : Nat := Bytes.read m i 2
def prepare : Nat := Bytes.read m (i + 2) 2
def length : Nat := Bytes.read m (i + 4) 2
def size : Int := long (Bytes.read m (i + 6) 4)

def setInitialization (v : Nat) : Memory := Bytes.write m 0 1 v
def setExisting (v : Nat) : Memory := Bytes.write m 1 2 v
def setValid (v : Nat) : Memory := Bytes.write m i 2 v
def setPrepare (v : Nat) : Memory := Bytes.write m (i + 2) 2 v
def setLength (v : Nat) : Memory := Bytes.write m (i + 4) 2 v
def setSize (v : Int) : Memory := Bytes.write m (i + 6) 4 (v % 2^32).toNat

end Fields

/-- The constructor, on the memory it is given. -/
def orShaIo (m : Memory) (bufferSize : Nat) : Memory :=
  let m := if initialization m = 0 then
      setSize m dataArea ((bufferSize % 2^32 : Nat) - headSize)
    else m
  setInitialization m 1

/-- The branch of PrepareData that divides the chunk at `i`. -/
def divide (m : Memory) (i : Int) (n : Nat) : Memory :=
  let second := i + dataHeader + n
  let m := setLength m second 0
  let m := setValid m second 0
  let m := setPrepare m second 0
  let m := setSize m second (size m i - n - dataHeader)
  let m := setSize m i n
  setLength m i n

/-- The branch of PrepareData that adds the chunk at `second` to the one at `i`. -/
def merge (m : Memory) (i second : Int) : Memory :=
  let m := setPrepare m second 1
  let m := setSize m i (size m i + (size m second + dataHeader))
  setPrepare m i 0

/-- The loop body of PrepareData at `i`. The tests of `size` against `n` are on UINT64 and
on `long`, as in the source; after a merge PrepareData is called again. -/
def prepareBody (bufferSize : Int) (n : Nat) :
    Memory × Int → (Memory × Int) ⊕ (Option Int × Memory)
  | (m, i) =>
      if i < bufferSize then
        if prepare m i = 0 then
          let m := setPrepare m i 1
          if n + dataHeader ≤ size m i % 2^64 then
            .inr (some (i + dataHeader), divide m i n)
          else if n ≤ size m i then
            .inr (some (i + dataHeader), setLength m i n)
          else
            let second := i + dataHeader + size m i
            if second < bufferSize then
              if prepare m second = 0 then .inl (merge m i second, dataArea)
              else
                let m := setPrepare m i 0
                .inl (m, i + dataHeader + size m i)
            else .inl (m, i + dataHeader + size m i)
        else .inl (m, i + dataHeader + size m i)
      else .inr (none, m)

/-- PrepareData; `none` if the iterations ran out. -/
def prepareData (bufferSize : Int) (n fuel : Nat) (m : Memory) : Option (Option Int × Memory) :=
  Loop.run (prepareBody bufferSize n) fuel (m, dataArea)

def sendData (m : Memory) (data : Int) : Bool × Memory :=
  let i := data - dataHeader
  if i + dataHeader ≠ data then (false, m)
  else
    let m := setValid m i 1
    (true, setExisting m (existing m + 1))

/-- One call of the reader's handler, with the bytes it finds. -/
structure Delivery where
  data : Int
  length : Nat
  bytes : List (BitVec 8)
  deriving DecidableEq, Repr

def delivery (m : Memory) (i : Int) : Delivery :=
  ⟨i + dataHeader, length m i, (List.range (length m i)).map fun (k : Nat) => m (i + dataHeader + k)⟩

/-- The loop body of ReadData at `i`, with the handler calls made so far. -/
def readBody (bufferSize : Int) :
    List Delivery × Memory × Int → (List Delivery × Memory × Int) ⊕ (List Delivery × Memory)
  | (ds, m, i) =>
      if i < bufferSize then
        let old := valid m i
        let m := if old = 1 then setValid m i 0 else m
        if old ≠ 0 then
          let ds := ds ++ [delivery m i]
          let m := setPrepare m i 0
          .inl (ds, m, i + dataHeader + size m i)
        else .inl (ds, m, i + dataHeader + size m i)
      else .inr (ds, m)

/-- ReadData. The decremented counter is tested as a signed 16-bit number. -/
def readData (bufferSize : Int) (fuel : Nat) (m : Memory) : Option (List Delivery × Memory) :=
  let m := setExisting m (existing m + 0xffff)
  if existing m < 0x8000 then Loop.run (readBody bufferSize) fuel ([], m, dataArea)
  else some ([], setExisting m (existing m + 1))

/-- A region returned by PrepareData and not yet read: what its producer asked for, what
it has written by now, and whether it was sent. -/
structure Packet where
  data : Int
  len : Nat
  written : Nat → Option (BitVec 8)
  sent : Bool

structure State where
  mem : Memory
  packets : List Packet

inductive Event where
  | prepare (n : Nat) (region : Option Int)
  | write (data : Int) (i : Nat) (v : BitVec 8)
  | send (data : Int)
  | read (ds : List Delivery)

/-- The packets left by a ReadData that made the calls `ds`. -/
def unread (ds : List Delivery) (ps : List Packet) : List Packet :=
  ps.filter fun p => !(p.sent && (ds.map Delivery.data).contains p.data)

/-- Whole calls of any number of producers and a reader. Producers write only inside a
region they hold, and send it once. -/
inductive Step (bufferSize : Int) : State → Event → State → Prop
  | refused {s : State} {n fuel : Nat} {m : Memory} : n < 2^16 →
      prepareData bufferSize n fuel s.mem = some (none, m) →
      Step bufferSize s (.prepare n none) { s with mem := m }
  | prepare {s : State} {n fuel : Nat} {data : Int} {m : Memory} : n < 2^16 →
      prepareData bufferSize n fuel s.mem = some (some data, m) →
      Step bufferSize s (.prepare n (some data))
        ⟨m, ⟨data, n, fun _ => none, false⟩ :: s.packets⟩
  | write {s : State} {before after : List Packet} {p : Packet} {i : Nat} {v : BitVec 8} :
      s.packets = before ++ p :: after → p.sent = false → i < p.len →
      Step bufferSize s (.write p.data i v)
        ⟨update s.mem (p.data + i) v,
          before ++ { p with written := update p.written i (some v) } :: after⟩
  | send {s : State} {before after : List Packet} {p : Packet} :
      s.packets = before ++ p :: after → p.sent = false →
      Step bufferSize s (.send p.data)
        ⟨(sendData s.mem p.data).2, before ++ { p with sent := true } :: after⟩
  | read {s : State} {fuel : Nat} {ds : List Delivery} {m : Memory} :
      readData bufferSize fuel s.mem = some (ds, m) →
      Step bufferSize s (.read ds) ⟨m, unread ds s.packets⟩

/-- The constructor has run on zeroed memory. -/
def Initial (bufferSize : Nat) (s : State) : Prop :=
  ∃ m : Memory, (∀ x, 0 ≤ x → x < headSize → m x = 0) ∧ s = ⟨orShaIo m bufferSize, []⟩

end LMalz.Buffer
