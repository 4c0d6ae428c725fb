import LMalz.Buffer.Interleaved
import LMalz.Buffer.Chunks
import Mathlib.Data.List.Perm.Basic

/- The buffer between two steps: the chunks with their headers, what each is in use for and
the headers that were merged into it. -/
namespace LMalz.Buffer
open Bytes (Memory SameOn)

inductive Stage where
  | filling | sent | taken
  deriving DecidableEq, Repr

/-- A busy chunk is owned by a PrepareData; no cursor stands in its first `clean` bytes. -/
inductive Duty where
  | free
  | lost
  | busy (clean : Nat)
  | region (stage : Stage) (n : Nat)
  deriving DecidableEq, Repr

/-- What a call owns a chunk as. -/
inductive Role where
  | busy (clean : Nat)
  | filling
  | taken
  deriving DecidableEq, Repr

namespace Duty

def prepareMark : Duty → Nat
  | .free => 0
  | _ => 1

def validMark : Duty → Nat
  | .region .sent _ => 1
  | _ => 0

def clean : Duty → Nat
  | .free | .lost => 0
  | .busy k => k
  | .region _ n => n

def role : Duty → Option Role
  | .free | .lost | .region .sent _ => none
  | .busy k => some (.busy k)
  | .region .filling _ => some .filling
  | .region .taken _ => some .taken

/-- The region at `data` that is out. -/
def lends (data : Int) : Duty → Option Region
  | .region stage n => some ⟨data, n, stage ≠ .filling⟩
  | _ => none

end Duty

structure Cell where
  base : Int
  width : Nat
  duty : Duty
  /-- The headers merged into the chunk that may still be walked over. -/
  stale : List Int

namespace Cell

def stop (c : Cell) : Int := c.base + dataHeader + c.width

/-- Where a cursor may stand. -/
def spots (c : Cell) : List Int := c.base :: c.stale

def clean (c : Cell) : Nat := c.duty.clean

def token (c : Cell) : Option (Int × Role) := c.duty.role.map fun r => (c.base, r)

def region (c : Cell) : Option Region := c.duty.lends (c.base + dataHeader)

/-- The header agrees with the use of the chunk. -/
structure Header (m : Memory) (c : Cell) : Prop where
  size : size m c.base = c.width
  prepare : prepare m c.base = c.duty.prepareMark
  valid : valid m c.base = c.duty.validMark
  length : ∀ stage n, c.duty = .region stage n → length m c.base = n ∧ n ≤ c.width

/-- A merged header still says that it is in use and leads to another one or out of the
chunk. -/
structure Passes (m : Memory) (c : Cell) (h : Int) : Prop where
  low : c.base + dataHeader + c.clean ≤ h
  high : h + dataHeader ≤ c.stop
  prepare : prepare m h = 1
  valid : valid m h = 0
  size : 0 ≤ size m h
  next : h + dataHeader + Buffer.size m h ∈ c.stale ∨ h + dataHeader + Buffer.size m h = c.stop

structure Holds (m : Memory) (c : Cell) : Prop where
  header : c.Header m
  stale : ∀ h ∈ c.stale, c.Passes m h

section Frame
variable {m m' : Memory} {c d : Cell}

theorem Header.frame (h : c.Header m) (same : SameOn m m' c.base (c.base + dataHeader)) :
    c.Header m' := by
  have header : dataHeader = 10 := rfl
  refine ⟨?_, ?_, ?_, ?_⟩
  · rw [Buffer.size, Bytes.read_congr (same.sub (by omega) (by omega))]
    exact h.size
  · rw [Buffer.prepare, Bytes.read_congr (same.sub (by omega) (by omega))]
    exact h.prepare
  · rw [Buffer.valid, Bytes.read_congr (same.sub (by omega) (by omega))]
    exact h.valid
  · rw [Buffer.length, Bytes.read_congr (same.sub (by omega) (by omega))]
    exact h.length

theorem Passes.frame {h : Int} (p : c.Passes m h)
    (same : SameOn m m' (c.base + dataHeader + c.clean) c.stop) : c.Passes m' h := by
  have header : dataHeader = 10 := rfl
  obtain ⟨low, high, prep, val, size, next⟩ := p
  have still : Buffer.size m' h = Buffer.size m h :=
    congrArg (fun v : Nat => long v) (Bytes.read_congr (same.sub (by omega) (by omega)))
  refine ⟨low, high, ?_, ?_, by rwa [still], by rwa [still]⟩
  · rw [Buffer.prepare, Bytes.read_congr (same.sub (by omega) (by omega))]
    exact prep
  · rw [Buffer.valid, Bytes.read_congr (same.sub (by omega) (by omega))]
    exact val

theorem Holds.frame (h : c.Holds m) (same : SameOn m m' c.base c.stop) : c.Holds m' := by
  have header : dataHeader = 10 := rfl
  have stop : c.stop = c.base + dataHeader + c.width := rfl
  refine ⟨h.header.frame (same.sub (Int.le_refl _) (by omega)), fun a ha => ?_⟩
  exact (h.stale a ha).frame (same.sub (by omega) (Int.le_refl _))

end Frame
end Cell

/-- The chunks lie one behind the other from `lo` up to `hi`. -/
def Contig : Int → List Cell → Int → Prop
  | lo, [], hi => lo = hi
  | lo, c :: cs, hi => c.base = lo ∧ Contig c.stop cs hi

def spotsOf (cs : List Cell) : List Int := cs.flatMap Cell.spots

section Contig
variable {lo mi hi : Int} {cs ds pre mid post : List Cell} {c d : Cell}

theorem Contig.append : Contig lo (cs ++ ds) hi ↔ ∃ mi, Contig lo cs mi ∧ Contig mi ds hi := by
  induction cs generalizing lo with
  | nil => exact ⟨fun h => ⟨lo, rfl, h⟩, fun ⟨mi, same, h⟩ => (show lo = mi from same) ▸ h⟩
  | cons c cs ih =>
      constructor
      · rintro ⟨here, rest⟩
        obtain ⟨mi, front, back⟩ := ih.mp rest
        exact ⟨mi, ⟨here, front⟩, back⟩
      · rintro ⟨mi, ⟨here, front⟩, back⟩
        exact ⟨here, ih.mpr ⟨mi, front, back⟩⟩

theorem Contig.le (h : Contig lo cs hi) : lo ≤ hi := by
  have header : dataHeader = 10 := rfl
  induction cs generalizing lo with
  | nil => exact le_of_eq h
  | cons c cs ih =>
      have rest := ih h.2
      have here := h.1
      have stop : c.stop = c.base + dataHeader + c.width := rfl
      omega

theorem Contig.inside (h : Contig lo cs hi) (hc : c ∈ cs) : lo ≤ c.base ∧ c.stop ≤ hi := by
  have header : dataHeader = 10 := rfl
  induction cs generalizing lo with
  | nil => cases hc
  | cons d cs ih =>
      have stop : d.stop = d.base + dataHeader + d.width := rfl
      have here := h.1
      rcases List.mem_cons.mp hc with rfl | later
      · exact ⟨here.ge, h.2.le⟩
      · have rest := ih h.2 later
        omega

theorem Contig.apart (h : Contig lo cs hi) : cs.Pairwise fun c d => c.stop ≤ d.base := by
  induction cs generalizing lo with
  | nil => exact .nil
  | cons c cs ih => exact .cons (fun d hd => (h.2.inside hd).1) (ih h.2)

theorem Contig.trichotomy (h : Contig lo cs hi) (hc : c ∈ cs) (hd : d ∈ cs) :
    c = d ∨ c.stop ≤ d.base ∨ d.stop ≤ c.base := by
  induction cs generalizing lo with
  | nil => cases hc
  | cons e cs ih =>
      rcases List.mem_cons.mp hc with rfl | hc' <;> rcases List.mem_cons.mp hd with rfl | hd'
      · exact .inl rfl
      · exact .inr (.inl (h.2.inside hd').1)
      · exact .inr (.inr (h.2.inside hc').1)
      · exact ih h.2 hc' hd'

/-- Behind a chunk comes a header or the end. -/
theorem Contig.stop_spot (h : Contig lo cs hi) (hc : c ∈ cs) : c.stop ∈ spotsOf cs ∨ c.stop = hi := by
  induction cs generalizing lo with
  | nil => cases hc
  | cons d cs ih =>
      rcases List.mem_cons.mp hc with rfl | later
      · cases cs with
        | nil => exact .inr h.2
        | cons e cs =>
            refine .inl (List.mem_append_right _ (List.mem_append_left _ ?_))
            rw [Cell.spots, h.2.1]
            exact List.mem_cons_self
      · exact (ih h.2 later).imp_left (List.mem_append_right _)

theorem Contig.next_cell (h : Contig lo (pre ++ [c] ++ post) hi) (more : c.stop < hi) :
    ∃ d post', post = d :: post' ∧ d.base = c.stop := by
  rw [List.append_assoc] at h
  obtain ⟨mi, -, here⟩ := Contig.append.mp h
  cases post with
  | nil =>
      have ends : c.stop = hi := here.2
      omega
  | cons d post' => exact ⟨d, post', rfl, here.2.1⟩

theorem Contig.start_spot (h : Contig lo cs hi) : lo ∈ spotsOf cs ∨ lo = hi := by
  cases cs with
  | nil => exact .inr h
  | cons c cs =>
      refine .inl (List.mem_append_left _ ?_)
      rw [← h.1]
      exact List.mem_cons_self

/-- Chunks may be exchanged for others that fill the same place. -/
theorem Contig.exchange {mid' : List Cell} (h : Contig lo (pre ++ mid ++ post) hi)
    (same : ∀ a b, Contig a mid b → Contig a mid' b) : Contig lo (pre ++ mid' ++ post) hi := by
  obtain ⟨b, front, back⟩ := Contig.append.mp h
  obtain ⟨a, start, middle⟩ := Contig.append.mp front
  exact Contig.append.mpr ⟨b, Contig.append.mpr ⟨a, start, same a b middle⟩, back⟩

end Contig
end LMalz.Buffer
