import LMalz.Errput.Formats

/- When the numbers that print emits are those of its arguments. -/
namespace LMalz.Errput

namespace Conv

def base : Conv → Nat
  | .d | .u => 10
  | .x | .X | .p => 16

/-- The argument: 32 bits with or without a sign, or 64 bits. -/
def value (arg : BitVec 64) : Conv → Int
  | .d => (arg.setWidth 32).toInt
  | .u | .x | .X => (arg.setWidth 32).toNat
  | .p => arg.toNat

/-- The number behind a text; `%p` has a prefix. -/
def read (cs : List Byte) : Conv → Option Int
  | .d | .u => parseSigned 10 cs
  | .x | .X => parseSigned 16 cs
  | .p => if cs.take 2 = [chr '0', chr 'x'] then parseSigned 16 (cs.drop 2) else none

/-- What print reaches: `%p` has one width, the others take an int. -/
def maxWidth : Conv → Nat
  | .p => 18
  | _ => 2 ^ 31 - 1

/-- Conversions of an unsigned int. -/
def unsigned : Conv → Bool
  | .u | .x | .X => true
  | .d | .p => false

end Conv

/-- The text shows the argument, and is as wide as was asked for. -/
structure Spec.Shows (s : Spec) (arg : BitVec 64) (text : List Byte) : Prop where
  value : s.conv.read text = some (s.conv.value arg)
  width : s.width ≤ text.length

/-- print returns the number of characters emitted, and what it adds for a conversion shows the
argument. -/
structure Faithful (o : Output) (pieces : List Piece) (varg : Nat → BitVec 64) : Prop where
  returns : ∃ fuel o' pc, print fuel o (encode pieces) varg = some (o', pc) ∧
    o.emitted.length + pc.toInt = o'.emitted.length
  shows : ∀ before s after, pieces = before ++ .conversion s :: after → ∃ fuel o₁ pc₁ o₂ pc₂ text,
    print fuel o (encode before) varg = some (o₁, pc₁) ∧
      print fuel o (encode (before ++ [.conversion s])) varg = some (o₂, pc₂) ∧
      o₂.emitted = o₁.emitted ++ text ∧ s.Shows (varg (arguments before)) text

/-- The width is one that print reaches, an unsigned argument has bit 31 clear, and no zeros follow
a number other than 0. -/
structure Spec.Safe (s : Spec) (arg : BitVec 64) : Prop where
  width : s.width ≤ s.conv.maxWidth
  unsigned : s.conv.unsigned = true → arg.getLsbD 31 = false
  zeros : s.conv ≠ .p → s.left = true → 0 < s.zeros →
    s.conv.value arg = 0 ∨ s.width ≤ natural s.conv.base (s.conv.value arg)

/-- The length of the text of a safe conversion. -/
def Spec.size (s : Spec) (arg : BitVec 64) : Nat :=
  match s.conv with
  | .p => 18
  | conv => max s.width (natural conv.base (conv.value arg))

def totalSize : List Piece → (Nat → BitVec 64) → Nat
  | [], _ => 0
  | .literal _ _ :: ps, varg => 1 + totalSize ps varg
  | .percent :: ps, varg => 1 + totalSize ps varg
  | .conversion s :: ps, varg => s.size (varg 0) + totalSize ps fun n => varg (n + 1)

section Printed
variable {s : Spec} {arg : BitVec 64}

/-- The number that printi is asked for. -/
def Conv.printed (arg : BitVec 64) : Conv → Int
  | .d => (intArgument arg).toInt
  | .u | .x | .X => (intArgument arg).toNat
  | .p => arg.toNat

theorem printed_d (arg : BitVec 64) : Conv.d.printed arg = Conv.d.value arg := by
  rw [Conv.printed, Conv.value, intArgument, BitVec.toInt_signExtend_of_le (by decide)]

/-- An unsigned argument with bit 31 set comes out as a number of 64 bits. -/
theorem toNat_intArgument (arg : BitVec 64) : (intArgument arg).toNat =
    (arg.setWidth 32).toNat + if arg.getLsbD 31 then 2 ^ 64 - 2 ^ 32 else 0 := by
  have top : (arg.setWidth 32).msb = arg.getLsbD 31 := by
    simp [BitVec.msb_eq_getLsbD_last]
  rw [intArgument, BitVec.toNat_signExtend, top, BitVec.toNat_setWidth_of_le (by decide)]

theorem printed_eq_value_iff (conv : Conv) (arg : BitVec 64) :
    conv.printed arg = conv.value arg ↔ (conv.unsigned = true → arg.getLsbD 31 = false) := by
  have word (conv : Conv) (here : conv.printed arg = (intArgument arg).toNat)
      (there : conv.value arg = (arg.setWidth 32).toNat) (unsigned : conv.unsigned = true) :
      conv.printed arg = conv.value arg ↔ (conv.unsigned = true → arg.getLsbD 31 = false) := by
    rw [here, there, toNat_intArgument]
    simp only [unsigned, true_implies]
    cases arg.getLsbD 31 <;> simp
  cases conv with
  | d => exact ⟨fun _ other => absurd other Bool.false_ne_true, fun _ => printed_d arg⟩
  | u => exact word .u rfl rfl rfl
  | x => exact word .x rfl rfl rfl
  | X => exact word .X rfl rfl rfl
  | p => exact ⟨fun _ other => absurd other Bool.false_ne_true, fun _ => rfl⟩

theorem value_le_printed (conv : Conv) (arg : BitVec 64) : conv.value arg ≤ conv.printed arg := by
  have word : ((arg.setWidth 32).toNat : Int) ≤ (intArgument arg).toNat := by
    rw [toNat_intArgument]
    omega
  cases conv with
  | d => exact (printed_d arg).ge
  | u => exact word
  | x => exact word
  | X => exact word
  | p => exact le_refl _

theorem ten_le_base (conv : Conv) : 10 ≤ conv.base := by
  cases conv <;> decide

theorem printed_short (conv : Conv) (arg : BitVec 64) : natural conv.base (conv.printed arg) < 2 ^ 31 := by
  apply natural_short (ten_le_base conv)
  have bound := arg.isLt
  have int := (intArgument arg).isLt
  cases conv with
  | d =>
      rw [Conv.printed, BitVec.toInt_eq_toNat_cond]
      split <;> omega
  | u | x | X | p =>
      simp only [Conv.printed, Int.natAbs_natCast]
      omega

theorem printed_number (other : s.conv ≠ .p) : ∃ sg letbase, Letters s.conv.base letbase ∧
    s.printed arg = numberText (intArgument arg) s.conv.base sg (BitVec.ofNat 32 s.width) s.pad letbase ∧
      signedValue s.conv.base sg (intArgument arg) = s.conv.printed arg := by
  have chars : chr 'd' ≠ chr 's' ∧ chr 'x' ≠ chr 's' ∧ chr 'x' ≠ chr 'd' ∧ chr 'X' ≠ chr 's' ∧ chr 'X' ≠ chr 'd' ∧
      chr 'X' ≠ chr 'x' ∧ chr 'u' ≠ chr 's' ∧ chr 'u' ≠ chr 'd' ∧ chr 'u' ≠ chr 'x' ∧ chr 'u' ≠ chr 'X' := by decide
  unfold Spec.printed conversionText
  cases conv : s.conv with
  | d => exact ⟨true, chr 'a', .decimal, by simp [Conv.char, chars, Conv.base], by simp [signedValue, Conv.base, Conv.printed]⟩
  | u => exact ⟨false, chr 'a', .decimal, by simp [Conv.char, chars, Conv.base], by simp [signedValue, Conv.printed]⟩
  | x => exact ⟨false, chr 'a', .hex, by simp [Conv.char, chars, Conv.base], by simp [signedValue, Conv.printed]⟩
  | X => exact ⟨false, chr 'A', .upperHex, by simp [Conv.char, chars, Conv.base], by simp [signedValue, Conv.printed]⟩
  | p => exact absurd conv other

/-- What the numbers have in common, and `%p` has not. -/
theorem number_conv (other : s.conv ≠ .p) :
    (∀ cs, s.conv.read cs = parseSigned s.conv.base cs) ∧ s.conv.maxWidth = 2 ^ 31 - 1 ∧
      ∀ arg, s.size arg = max s.width (natural s.conv.base (s.conv.value arg)) := by
  unfold Spec.size
  cases conv : s.conv with
  | p => exact absurd conv other
  | d | u | x | X => exact ⟨fun _ => rfl, rfl, fun _ => rfl⟩

theorem Spec.Safe.small (safe : s.Safe arg) (other : s.conv ≠ .p) : s.width < 2 ^ 31 := by
  have width := safe.width
  rw [(number_conv other).2.1] at width
  omega

theorem printed_reads (arg : BitVec 64) (other : s.conv ≠ .p) (small : s.width < 2 ^ 31) :
    let v := s.conv.printed arg
    let n := s.width - natural s.conv.base v
    s.conv.read (s.printed arg) =
        some (v * (s.conv.base : Int) ^ if s.left = true ∧ 0 < s.zeros then n else 0) ∧
      (s.printed arg).length = natural s.conv.base v + n := by
  obtain ⟨sg, letbase, letters, text, value⟩ := printed_number other
  have reads := numberText_reads letters (intArgument arg) sg (BitVec.ofNat 32 s.width) s.pad
  rw [value, ← text] at reads
  dsimp only at reads ⊢
  rw [numberPadding_ofNat small (printed_short s.conv arg)] at reads
  rw [(number_conv other).1]
  simpa [Spec.pad] using reads

theorem printed_pointer (pointer : s.conv = .p) :
    s.conv.read (s.printed arg) = some (arg.toNat : Int) ∧ (s.printed arg).length = 18 := by
  have chars : chr 'p' ≠ chr 's' ∧ chr 'p' ≠ chr 'd' ∧ chr 'p' ≠ chr 'x' ∧ chr 'p' ≠ chr 'X' ∧ chr 'p' ≠ chr 'u' := by
    decide
  have text : s.printed arg = chr '0' :: chr 'x' :: numberText arg 16 false 16 ⟨false, true⟩ (chr 'A') := by
    simp [Spec.printed, conversionText, pointer, Conv.char, chars]
  obtain ⟨read, length⟩ := numberText_reads .upperHex arg false 16 ⟨false, true⟩
  have value : signedValue 16 false arg = arg.toNat := by simp [signedValue]
  rw [value] at read length
  have digits : natural 16 (arg.toNat : Int) ≤ 16 := by
    have few : (Numeral.digits 16 arg.toNat).length ≤ 16 := by
      apply Numeral.length_digits_le (by decide)
      exact arg.isLt
    rw [natural, Int.natAbs_natCast, if_neg (by omega)]
    omega
  rw [show (16 : BitVec 32) = BitVec.ofNat 32 16 from rfl, numberPadding_ofNat (by decide) (by omega)] at length
  refine ⟨?_, ?_⟩
  · rw [pointer, text]
    simpa [Conv.read] using read
  · rw [text, List.length_cons, List.length_cons, show (16 : BitVec 32) = BitVec.ofNat 32 16 from rfl, length]
    omega

theorem shows_pointer_iff (pointer : s.conv = .p) : s.Shows arg (s.printed arg) ↔ s.Safe arg := by
  obtain ⟨read, length⟩ := printed_pointer pointer
  have maxWidth : s.conv.maxWidth = 18 := by rw [pointer]; rfl
  constructor
  · intro shows
    refine ⟨?_, fun unsigned => ?_, fun other => absurd pointer other⟩
    · rw [maxWidth, ← length]
      exact shows.width
    · rw [pointer] at unsigned
      cases unsigned
  · intro safe
    refine ⟨by rw [read, pointer]; rfl, ?_⟩
    rw [length, ← maxWidth]
    exact safe.width

/-- A number that is read right was printed from the right value: zeros behind a greater one do not
make up for it. -/
theorem printed_eq_value (other : s.conv ≠ .p) {n : Nat}
    (same : s.conv.printed arg * (s.conv.base : Int) ^ n = s.conv.value arg) :
    s.conv.printed arg = s.conv.value arg := by
  have le := value_le_printed s.conv arg
  have base := ten_le_base s.conv
  have grows : 1 ≤ (s.conv.base : Int) ^ n := by
    exact_mod_cast Nat.one_le_pow _ _ (by omega)
  cases conv : s.conv with
  | d => exact printed_d arg
  | p => exact absurd conv other
  | u | x | X =>
      rw [conv] at same le grows
      have pos : 0 ≤ Conv.printed arg .u := Int.natCast_nonneg _
      refine le_antisymm ?_ le
      calc _ ≤ _ := le_mul_of_one_le_right pos grows
        _ = _ := same

theorem zero_of_mul_pow {b n : Nat} (base : 1 < b) {v : Int} (same : v * (b : Int) ^ n = v) : v = 0 ∨ n = 0 := by
  by_cases zero : v = 0
  · exact .inl zero
  · right
    by_contra some
    have one : (b : Int) ^ n = 1 := mul_left_cancel₀ zero (same.trans (mul_one v).symm)
    have more : 1 < b ^ n := Nat.one_lt_pow some base
    have cast : b ^ n = 1 := by exact_mod_cast one
    omega

theorem safe_of_shows (other : s.conv ≠ .p) (fits : (s.printed arg).length < 2 ^ 31)
    (shows : s.Shows arg (s.printed arg)) : s.Safe arg := by
  have small : s.width < 2 ^ 31 := Nat.lt_of_le_of_lt shows.width fits
  have same := Option.some.inj ((printed_reads arg other small).1.symm.trans shows.value)
  have equal := printed_eq_value other same
  refine ⟨by rw [(number_conv other).2.1]; omega, (printed_eq_value_iff _ _).mp equal, fun _ left zeros => ?_⟩
  rw [if_pos ⟨left, zeros⟩, equal] at same
  exact (zero_of_mul_pow (Nat.lt_of_lt_of_le (by decide) (ten_le_base s.conv)) same).imp_right
    Nat.le_of_sub_eq_zero

theorem shows_of_safe (other : s.conv ≠ .p) (safe : s.Safe arg) : s.Shows arg (s.printed arg) := by
  obtain ⟨read, length⟩ := printed_reads arg other (safe.small other)
  have equal := (printed_eq_value_iff s.conv arg).mpr safe.unsigned
  refine ⟨?_, by omega⟩
  rw [read, equal]
  by_cases zeros : s.left = true ∧ 0 < s.zeros
  · rw [if_pos zeros]
    rcases safe.zeros other zeros.1 zeros.2 with zero | narrow
    · rw [zero, zero_mul]
    · rw [Nat.sub_eq_zero_of_le narrow, pow_zero, mul_one]
  · rw [if_neg zeros, pow_zero, mul_one]

/-- What a conversion prints shows its argument if and only if it is safe. -/
theorem shows_printed_iff (fits : (s.printed arg).length < 2 ^ 31) : s.Shows arg (s.printed arg) ↔ s.Safe arg := by
  by_cases pointer : s.conv = .p
  · exact shows_pointer_iff pointer
  · exact ⟨safe_of_shows pointer fits, shows_of_safe pointer⟩

theorem length_printed (safe : s.Safe arg) : (s.printed arg).length = s.size arg := by
  by_cases pointer : s.conv = .p
  · rw [Spec.size, pointer]
    exact (printed_pointer pointer).2
  · have length := (printed_reads arg pointer (safe.small pointer)).2
    rw [(printed_eq_value_iff s.conv arg).mpr safe.unsigned] at length
    rw [length, (number_conv pointer).2.2]
    omega

end Printed

section Whole
variable {o : Output} {pieces : List Piece} {varg : Nat → BitVec 64}

/-- Every conversion is safe for its argument. -/
def AllSafe (pieces : List Piece) (varg : Nat → BitVec 64) : Prop :=
  ∀ before s after, pieces = before ++ .conversion s :: after → s.Safe (varg (arguments before))

theorem length_rendered (safe : AllSafe pieces varg) : (rendered pieces varg).length = totalSize pieces varg := by
  induction pieces generalizing varg with
  | nil => rfl
  | cons piece ps ih =>
      cases piece with
      | literal c plain =>
          have rest := ih fun before s after split => safe (.literal c plain :: before) s after (by rw [split]; rfl)
          rw [rendered, totalSize, List.length_cons, rest, Nat.add_comm]
      | percent =>
          have rest := ih fun before s after split => safe (.percent :: before) s after (by rw [split]; rfl)
          rw [rendered, totalSize, List.length_cons, rest, Nat.add_comm]
      | conversion s =>
          have first := length_printed (safe [] s ps rfl)
          have rest : AllSafe ps fun n => varg (n + 1) := fun before s' after split =>
            safe (.conversion s :: before) s' after (by rw [split]; rfl)
          rw [rendered, totalSize, List.length_append, ih rest]
          exact congrArg (· + _) first

theorem emitted_terminate (o : Output) (cs : List Byte) : (o.emit cs).terminate.emitted = o.emitted ++ cs :=
  emit_emitted o cs

theorem returns_iff : (∃ fuel o' pc, print fuel o (encode pieces) varg = some (o', pc) ∧
      o.emitted.length + pc.toInt = o'.emitted.length) ↔ (rendered pieces varg).length < 2 ^ 31 := by
  have completes := print_encode o pieces varg
  constructor
  · rintro ⟨fuel, o', pc, ran, count⟩
    obtain ⟨rfl, rfl⟩ := Prod.mk.inj (completes.eq_of_some ran)
    rw [emitted_terminate, List.length_append] at count
    have small := BitVec.toInt_lt (x := BitVec.ofNat 32 (rendered pieces varg).length)
    push_cast at count
    omega
  · intro small
    obtain ⟨fuel, ran⟩ := completes.exists_some
    refine ⟨fuel, _, _, ran, ?_⟩
    rw [toInt_ofNat small, emitted_terminate, List.length_append]
    exact_mod_cast rfl

theorem shows_iff (before : List Piece) (s : Spec) : (∃ fuel o₁ pc₁ o₂ pc₂ text,
      print fuel o (encode before) varg = some (o₁, pc₁) ∧
        print fuel o (encode (before ++ [.conversion s])) varg = some (o₂, pc₂) ∧
        o₂.emitted = o₁.emitted ++ text ∧ s.Shows (varg (arguments before)) text) ↔
      s.Shows (varg (arguments before)) (s.printed (varg (arguments before))) := by
  have first := print_encode o before varg
  have second := print_encode o (before ++ [.conversion s]) varg
  have more : rendered (before ++ [.conversion s]) varg =
      rendered before varg ++ s.printed (varg (arguments before)) := by
    rw [rendered_append, rendered, rendered, List.append_nil, Nat.zero_add]
  constructor
  · rintro ⟨fuel, o₁, pc₁, o₂, pc₂, text, ran₁, ran₂, adds, shows⟩
    obtain ⟨rfl, rfl⟩ := Prod.mk.inj (first.eq_of_some ran₁)
    obtain ⟨rfl, rfl⟩ := Prod.mk.inj (second.eq_of_some ran₂)
    rw [emitted_terminate, emitted_terminate, more, ← List.append_assoc] at adds
    rw [List.append_cancel_left adds]
    exact shows
  · intro shows
    obtain ⟨fuel, ran₁, ran₂⟩ := first.both second
    refine ⟨fuel, _, _, _, _, _, ran₁, ran₂, ?_, shows⟩
    rw [emitted_terminate, emitted_terminate, more, List.append_assoc]

/-- The numbers are faithful if and only if each conversion is safe and the whole length fits an
int. -/
theorem print_faithful_iff (o : Output) (pieces : List Piece) (varg : Nat → BitVec 64) :
    Faithful o pieces varg ↔ AllSafe pieces varg ∧ totalSize pieces varg < 2 ^ 31 := by
  have part {before : List Piece} {s : Spec} {after : List Piece} (split : pieces = before ++ .conversion s :: after) :
      (s.printed (varg (arguments before))).length ≤ (rendered pieces varg).length := by
    rw [split, rendered_append, rendered, Nat.zero_add, List.length_append, List.length_append]
    omega
  constructor
  · rintro ⟨returns, shows⟩
    have fits := returns_iff.mp returns
    have safe : AllSafe pieces varg := fun before s after split =>
      (shows_printed_iff (Nat.lt_of_le_of_lt (part split) fits)).mp
        ((shows_iff before s).mp (shows before s after split))
    exact ⟨safe, length_rendered safe ▸ fits⟩
  · rintro ⟨safe, total⟩
    have fits : (rendered pieces varg).length < 2 ^ 31 := (length_rendered safe).symm ▸ total
    exact ⟨returns_iff.mpr fits, fun before s after split => (shows_iff before s).mpr
      ((shows_printed_iff (Nat.lt_of_le_of_lt (part split) fits)).mpr (safe before s after split))⟩

end Whole

/-- Zeros behind a number are more digits of it. -/
example : Conv.d.read (Spec.printed ⟨true, 1, 3, .d⟩ 5) = some 500 := by decide

def emptyOutput : Output := ⟨fun _ => 0, 0, [], []⟩

theorem print_unsigned_wide :
    ¬ Faithful emptyOutput [.conversion ⟨false, 0, 0, .u⟩] (fun _ => 0xFFFFFFFF) := by
  rintro ⟨-, shows⟩
  have text := (shows_iff [] ⟨false, 0, 0, .u⟩).mp (shows [] _ [] rfl)
  exact absurd text.value (by decide)

end LMalz.Errput
