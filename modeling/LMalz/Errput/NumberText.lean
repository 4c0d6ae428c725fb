import LMalz.Errput.Completion

/- The numbers that printi prints: what they are read as, and how long they are. -/
namespace LMalz.Errput

def digitOf (c : Byte) : Option Nat :=
  if chr '0' ≤ c ∧ c ≤ chr '9' then some (c - chr '0').toNat
  else if chr 'a' ≤ c ∧ c ≤ chr 'f' then some ((c - chr 'a').toNat + 10)
  else if chr 'A' ≤ c ∧ c ≤ chr 'F' then some ((c - chr 'A').toNat + 10)
  else none

/-- A digit of the base. -/
def digitIn (b : Nat) (c : Byte) : Option Nat := (digitOf c).filter (· < b)

/-- A text without the spaces around it. -/
def strip (cs : List Byte) : List Byte :=
  ((cs.dropWhile (· == chr ' ')).reverse.dropWhile (· == chr ' ')).reverse

/-- An integer with its sign, in the middle of spaces. -/
def parseSigned (b : Nat) (cs : List Byte) : Option Int :=
  match strip cs with
  | [] => none
  | c :: ds =>
      if c = chr '-' then (Numeral.read (digitIn b) b ds).map fun n => -(n : Int)
      else (Numeral.read (digitIn b) b (c :: ds)).map Int.ofNat

/-- The number that printi is asked for. -/
def signedValue (b : Nat) (sg : Bool) (i : BitVec 64) : Int :=
  if sg = true ∧ b = 10 then i.toInt else i.toNat

/-- The length of a number without padding. -/
def natural (b : Nat) (v : Int) : Nat :=
  max 1 (Numeral.digits b v.natAbs).length + if v < 0 then 1 else 0

/-- The characters of padding. Behind a sign that was printed first, the width is one less. -/
def numberPadding (b : Nat) (v : Int) (width : BitVec 32) (pad : Pad) : Nat :=
  if v < 0 ∧ width ≠ 0 ∧ pad.zero = true then padding (natural b v - 1) (width - 1)
  else padding (natural b v) width

def sign (neg : Bool) : List Byte := if neg then [chr '-'] else []

def negate (neg : Bool) (n : Nat) : Int := if neg then -(n : Int) else n

section Digits
variable {b : Nat} {letbase : Byte} {ds : List Nat} {d : Nat}

theorem Letters.digit (h : Letters b letbase) (digit : d < b) :
    digitIn b (digitChar letbase d) = some d ∧ digitChar letbase d ≠ chr ' ' ∧
      digitChar letbase d ≠ chr '-' := by
  have small : ∀ d < 16, digitOf (digitChar (chr 'a') d) = some d ∧ digitChar (chr 'a') d ≠ chr ' ' ∧
      digitChar (chr 'a') d ≠ chr '-' := by decide
  have large : ∀ d < 16, digitOf (digitChar (chr 'A') d) = some d ∧ digitChar (chr 'A') d ≠ chr ' ' ∧
      digitChar (chr 'A') d ≠ chr '-' := by decide
  have few := h.digit_small digit
  rcases h.letbase with rfl | rfl
  · obtain ⟨read, space, minus⟩ := small d few
    exact ⟨by rw [digitIn, read, Option.filter_some, if_pos (by simpa using digit)], space, minus⟩
  · obtain ⟨read, space, minus⟩ := large d few
    exact ⟨by rw [digitIn, read, Option.filter_some, if_pos (by simpa using digit)], space, minus⟩

theorem strip_spaces {cs : List Byte} (plain : chr ' ' ∉ cs) (l r : Nat) :
    strip (List.replicate l (chr ' ') ++ cs ++ List.replicate r (chr ' ')) = cs := by
  have spaces (n : Nat) : ∀ c ∈ List.replicate n (chr ' '), (c == chr ' ') = true := by
    intro c space
    rw [(List.mem_replicate.mp space).2]
    exact beq_self_eq_true _
  have drop {text : List Byte} (plain : chr ' ' ∉ text) (rest : List Byte) (empty : text = [] → rest = []) :
      (text ++ rest).dropWhile (· == chr ' ') = text ++ rest := by
    cases text with
    | nil =>
        rw [empty rfl]
        rfl
    | cons c text =>
        have other : c ≠ chr ' ' := fun same => plain (same ▸ List.mem_cons_self)
        rw [List.cons_append, List.dropWhile_cons_of_neg (by simpa using other)]
  unfold strip
  rw [List.append_assoc, List.dropWhile_append_of_pos (spaces l)]
  by_cases none : cs = []
  · subst none
    have gone : (List.replicate r (chr ' ') ++ []).dropWhile (· == chr ' ') = [] :=
      List.dropWhile_append_of_pos (spaces r)
    rw [List.append_nil] at gone
    rw [List.nil_append, gone]
    rfl
  · have back : chr ' ' ∉ cs.reverse := by simpa using plain
    have kept := drop back [] fun _ => rfl
    rw [List.append_nil] at kept
    rw [drop plain _ fun empty => absurd empty none, List.reverse_append, List.reverse_replicate,
      List.dropWhile_append_of_pos (spaces r), kept, List.reverse_reverse]

theorem parseSigned_digits (h : Letters b letbase) (known : ∀ d ∈ ds, d < b) (nonempty : ds ≠ []) (neg : Bool)
    (l r : Nat) :
    parseSigned b (List.replicate l (chr ' ') ++ (sign neg ++ ds.map (digitChar letbase)) ++
        List.replicate r (chr ' ')) = some (negate neg (Numeral.value b ds)) := by
  have read : Numeral.read (digitIn b) b (ds.map (digitChar letbase)) = some (Numeral.value b ds) :=
    Numeral.read_map (fun d digit => (h.digit (known d digit)).1) nonempty
  have spaceless : chr ' ' ∉ ds.map (digitChar letbase) := by
    intro space
    obtain ⟨d, digit, same⟩ := List.mem_map.mp space
    exact (h.digit (known d digit)).2.1 same
  have plain : chr ' ' ∉ sign neg ++ ds.map (digitChar letbase) := by
    intro space
    rcases List.mem_append.mp space with sign | digit
    · cases neg with
      | true => exact absurd (List.mem_singleton.mp sign) (by decide)
      | false => cases sign
    · exact spaceless digit
  rw [parseSigned, strip_spaces plain l r]
  cases neg with
  | true =>
      simp only [sign, if_true, List.singleton_append, read]
      rfl
  | false =>
      cases ds with
      | nil => exact absurd rfl nonempty
      | cons d ds =>
          have other := (h.digit (known d List.mem_cons_self)).2.2
          rw [List.map_cons] at read
          simp only [sign, Bool.false_eq_true, if_false, List.nil_append, List.map_cons, if_neg other, read]
          rfl

theorem parseSigned_spaces (h : Letters b letbase) (known : ∀ d ∈ ds, d < b) (nonempty : ds ≠ []) (neg : Bool)
    (width : BitVec 32) (right : Bool) :
    parseSigned b (padded (sign neg ++ ds.map (digitChar letbase)) width ⟨right, false⟩) =
      some (negate neg (Numeral.value b ds)) := by
  cases right with
  | true =>
      have read := parseSigned_digits h known nonempty neg 0
        (padding (sign neg ++ ds.map (digitChar letbase)).length width)
      rw [List.replicate_zero, List.nil_append] at read
      exact read
  | false =>
      have read := parseSigned_digits h known nonempty neg
        (padding (sign neg ++ ds.map (digitChar letbase)).length width) 0
      rw [List.replicate_zero, List.append_nil] at read
      exact read

/-- Zeros on the right are read as digits. -/
theorem parseSigned_zeros (h : Letters b letbase) (known : ∀ d ∈ ds, d < b) (nonempty : ds ≠ []) (neg : Bool)
    (width : BitVec 32) (right : Bool) :
    parseSigned b (sign neg ++ padded (ds.map (digitChar letbase)) width ⟨right, true⟩) =
      some (negate neg (Numeral.value b ds * b ^ if right then padding ds.length width else 0)) := by
  let n := padding ds.length width
  have base := h.ten_le
  have zeros : List.replicate n (chr '0') = (List.replicate n 0).map (digitChar letbase) := by
    rw [List.map_replicate]
    rfl
  have zero (d : Nat) (inside : d ∈ List.replicate n 0) : d < b := by
    rw [(List.mem_replicate.mp inside).2]
    omega
  cases right with
  | true =>
      have read := parseSigned_digits h
        (fun d inside => (List.mem_append.mp inside).elim (known d) (zero d)) (by simp [nonempty]) neg 0 0
      rw [List.replicate_zero, List.nil_append, List.append_nil, List.map_append, ← zeros,
        Numeral.value_append_zeros] at read
      simpa [padded, sign, negate, n] using read
  | false =>
      have read := parseSigned_digits h
        (fun d inside => (List.mem_append.mp inside).elim (zero d) (known d)) (by simp [nonempty]) neg 0 0
      rw [List.replicate_zero, List.nil_append, List.append_nil, List.map_append, ← zeros,
        Numeral.value_zeros_append] at read
      simpa [padded, sign, negate, n] using read

end Digits

section NumberText
variable {b : Nat} {letbase : Byte}

/-- The digits of a number; 0 has one, too. -/
def coreDigits (b n : Nat) : List Nat := if n = 0 then [0] else Numeral.digits b n

theorem coreDigits_lt (base : 1 < b) {n d : Nat} (digit : d ∈ coreDigits b n) : d < b := by
  unfold coreDigits at digit
  split at digit
  · rw [List.mem_singleton.mp digit]
    omega
  · exact Numeral.digits_lt base digit

theorem coreDigits_ne_nil (b n : Nat) : coreDigits b n ≠ [] := by
  unfold coreDigits
  split
  · exact List.cons_ne_nil 0 []
  · rename_i pos
    exact fun none => pos (Numeral.digits_eq_nil_iff.mp none)

theorem value_coreDigits (base : 1 < b) (n : Nat) : Numeral.value b (coreDigits b n) = n := by
  unfold coreDigits
  split
  · rename_i zero
    simp [zero, Numeral.value]
  · exact Numeral.value_digits base n

theorem length_coreDigits (b n : Nat) : (coreDigits b n).length = max 1 (Numeral.digits b n).length := by
  have some := List.length_pos_iff.mpr (coreDigits_ne_nil b n)
  unfold coreDigits at *
  split
  · rename_i zero
    rw [zero, Numeral.digits_zero]
    rfl
  · rename_i pos
    rw [if_neg pos] at some
    omega

theorem natural_eq (letbase : Byte) (b : Nat) (neg : Bool) (n : Nat) (proper : neg = true → n ≠ 0) :
    natural b (negate neg n) = (sign neg ++ (coreDigits b n).map (digitChar letbase)).length := by
  rw [List.length_append, List.length_map, length_coreDigits, natural]
  cases neg with
  | true =>
      have pos := proper rfl
      simp only [negate, sign, if_true, Int.natAbs_neg, Int.natAbs_natCast, List.length_singleton]
      rw [if_pos (by omega)]
      omega
  | false =>
      simp only [negate, sign, Bool.false_eq_true, if_false, Int.natAbs_natCast, List.length_nil]
      rw [if_neg (by omega)]
      omega

theorem signedValue_eq {sg : Bool} {i : BitVec 64} :
    signedValue b sg i = if sg = true ∧ b = 10 ∧ i.toInt < 0 then negate true (-i).toNat
      else negate false i.toNat := by
  have bound := i.isLt
  unfold signedValue negate
  by_cases decimal : sg = true ∧ b = 10
  · obtain ⟨rfl, rfl⟩ := decimal
    simp only [true_and, and_self, if_true, Bool.false_eq_true, if_false]
    split
    · rename_i neg
      rw [BitVec.toNat_neg]
      rw [BitVec.toInt_eq_toNat_cond] at neg ⊢
      split at neg
      · omega
      · rename_i high
        rw [if_neg high]
        omega
    · rename_i pos
      rw [BitVec.toInt_eq_toNat_cond] at pos ⊢
      split at pos
      · rename_i low
        rw [if_pos low]
      · omega
  · have other : ¬ (sg = true ∧ b = 10 ∧ i.toInt < 0) := fun h => decimal ⟨h.1, h.2.1⟩
    rw [if_neg decimal, if_neg other]
    simp

theorem numberText_eq (h : Letters b letbase) (i : BitVec 64) (sg : Bool) (width : BitVec 32) (pad : Pad) :
    ∃ neg n, (neg = true → n ≠ 0) ∧ signedValue b sg i = negate neg n ∧
      numberText i b sg width pad letbase =
        let digits := (coreDigits b n).map (digitChar letbase)
        if neg = true ∧ width ≠ 0 ∧ pad.zero = true then sign true ++ padded digits (width - 1) pad
        else padded (sign neg ++ digits) width pad := by
  have base := h.ten_le
  have digits {u : BitVec 64} (pos : u ≠ 0) :
      digitText b letbase u = (coreDigits b u.toNat).map (digitChar letbase) := by
    have some : u.toNat ≠ 0 := fun none => pos (BitVec.eq_of_toNat_eq none)
    rw [digitText_eq base, coreDigits, if_neg some]
  unfold numberText
  rw [signedValue_eq]
  by_cases zero : i = 0
  · subst zero
    refine ⟨false, 0, fun neg => absurd neg Bool.false_ne_true, ?_, ?_⟩
    · rw [if_neg (fun neg => absurd neg.2.2 (by decide))]
      rfl
    · simp [coreDigits, sign, digitChar, chr]
  by_cases neg : sg = true ∧ b = 10 ∧ i.toInt < 0
  · have other : -i ≠ 0 := fun none => zero (BitVec.neg_eq_zero_iff.mp none)
    refine ⟨true, (-i).toNat, fun _ none => other (BitVec.eq_of_toNat_eq none), by rw [if_pos neg], ?_⟩
    simp only [if_neg zero, if_pos neg, digits other, true_and]
    rfl
  · refine ⟨false, i.toNat, fun neg => absurd neg Bool.false_ne_true, by rw [if_neg neg], ?_⟩
    simp only [if_neg zero, if_neg neg, digits zero, Bool.false_eq_true, false_and, if_false]
    rfl

theorem negate_neg_iff {neg : Bool} {m : Nat} (proper : neg = true → m ≠ 0) : negate neg m < 0 ↔ neg = true := by
  cases neg with
  | true =>
      have pos := proper rfl
      simp only [negate, if_true, iff_true]
      omega
  | false => simp [negate]

theorem negate_mul_pow (neg : Bool) (m b k : Nat) : negate neg (m * b ^ k) = negate neg m * (b : Int) ^ k := by
  cases neg <;> simp [negate]

/-- A number whose sign is padded with it. -/
theorem parseSigned_padded (h : Letters b letbase) {neg : Bool} {m : Nat} (proper : neg = true → m ≠ 0)
    {width : BitVec 32} {pad : Pad} (inside : ¬ (neg = true ∧ width ≠ 0 ∧ pad.zero = true)) :
    parseSigned b (padded (sign neg ++ (coreDigits b m).map (digitChar letbase)) width pad) =
      some (negate neg m * (b : Int) ^
        if pad.right = true ∧ pad.zero = true then padding (natural b (negate neg m)) width else 0) := by
  have known (d : Nat) (digit : d ∈ coreDigits b m) : d < b := coreDigits_lt h.one_lt digit
  have some := coreDigits_ne_nil b m
  obtain ⟨right, zero⟩ := pad
  cases zero with
  | false =>
      have read := parseSigned_spaces h known some neg width right
      rw [value_coreDigits h.one_lt] at read
      simpa using read
  | true =>
      cases neg with
      | false =>
          have read := parseSigned_zeros h known some false width right
          have same : padding (coreDigits b m).length width = padding (natural b (negate false m)) width := by
            rw [natural_eq letbase b false m proper]
            simp [sign]
          rw [value_coreDigits h.one_lt, negate_mul_pow, same] at read
          simpa [sign] using read
      | true =>
          have none : width = 0 := by
            by_contra wide
            exact inside ⟨rfl, wide, rfl⟩
          have read := parseSigned_digits h known some true 0 0
          rw [value_coreDigits h.one_lt] at read
          subst none
          simpa [padded, padding] using read

/-- What a printed number is read as, and its length. -/
theorem numberText_reads (h : Letters b letbase) (i : BitVec 64) (sg : Bool) (width : BitVec 32) (pad : Pad) :
    let v := signedValue b sg i
    let n := numberPadding b v width pad
    parseSigned b (numberText i b sg width pad letbase) =
        some (v * (b : Int) ^ if pad.right = true ∧ pad.zero = true then n else 0) ∧
      (numberText i b sg width pad letbase).length = natural b v + n := by
  obtain ⟨neg, m, proper, value, text⟩ := numberText_eq h i sg width pad
  have length := natural_eq letbase b neg m proper
  intro v n
  have asked : v = negate neg m := value
  rw [text]
  by_cases first : neg = true ∧ width ≠ 0 ∧ pad.zero = true
  · obtain ⟨right, zero⟩ := pad
    obtain ⟨rfl, wide, rfl⟩ := first
    have count : n = padding (coreDigits b m).length (width - 1) := by
      have fewer : natural b (negate true m) - 1 = (coreDigits b m).length := by
        rw [length, List.length_append, List.length_map]
        exact Nat.add_sub_cancel_left _ _
      simp only [n, numberPadding, asked, negate_neg_iff proper, wide, ne_eq, not_false_eq_true, and_self,
        if_true, fewer]
    have read := parseSigned_zeros h (fun d => coreDigits_lt h.one_lt) (coreDigits_ne_nil b m) true (width - 1) right
    rw [value_coreDigits h.one_lt, negate_mul_pow, ← asked, ← count] at read
    simp only [wide, ne_eq, not_false_eq_true, and_self, if_true]
    refine ⟨by simpa using read, ?_⟩
    rw [List.length_append, length_padded, List.length_map, ← count, asked, length, List.length_append,
      List.length_map, Nat.add_assoc]
  · have count : n = padding (natural b v) width :=
      if_neg fun h => first ⟨(negate_neg_iff proper).mp (asked ▸ h.1), h.2⟩
    rw [if_neg first, count, asked]
    exact ⟨parseSigned_padded h proper first, by rw [length_padded, ← length]⟩

end NumberText

section Width
variable {b len w : Nat} {v : Int}

theorem toInt_ofNat (small : w < 2 ^ 31) : (BitVec.ofNat 32 w).toInt = w := by
  rw [BitVec.toInt_ofNat']
  exact Int.bmod_eq_of_le (by omega) (by omega)

theorem padding_ofNat (small : w < 2 ^ 31) (short : len < 2 ^ 31) : padding len (BitVec.ofNat 32 w) = w - len := by
  rw [padding, toInt_ofNat small]
  by_cases positive : 0 < (w : Int)
  · rw [if_pos positive, padWidth]
    by_cases enough : w ≤ len
    · have le : (BitVec.ofNat 32 w).sle (BitVec.ofNat 32 len) = true := by
        rw [BitVec.sle, toInt_ofNat small, toInt_ofNat short]
        exact decide_eq_true (by omega)
      rw [if_pos le, Nat.sub_eq_zero_of_le enough]
      rfl
    · have more : ¬ (BitVec.ofNat 32 w).sle (BitVec.ofNat 32 len) = true := by
        rw [BitVec.sle, toInt_ofNat small, toInt_ofNat short, decide_eq_true_iff]
        omega
      have rest : BitVec.ofNat 32 w - BitVec.ofNat 32 len = BitVec.ofNat 32 (w - len) := by
        apply BitVec.eq_of_toNat_eq
        simp only [BitVec.toNat_sub, BitVec.toNat_ofNat]
        omega
      rw [if_neg more, rest, toInt_ofNat (by omega)]
      exact Int.toNat_natCast _
  · rw [if_neg positive]
    omega

theorem natural_pos (b : Nat) (v : Int) : 0 < natural b v := by
  rw [natural]
  omega

theorem numberPadding_ofNat (small : w < 2 ^ 31) (short : natural b v < 2 ^ 31) (pad : Pad) :
    numberPadding b v (BitVec.ofNat 32 w) pad = w - natural b v := by
  have some := natural_pos b v
  rw [numberPadding]
  split
  · rename_i first
    have wide : w ≠ 0 := by
      rintro rfl
      exact first.2.1 rfl
    have less : BitVec.ofNat 32 w - 1 = BitVec.ofNat 32 (w - 1) := by
      apply BitVec.eq_of_toNat_eq
      have one : (1 : BitVec 32).toNat = 1 := rfl
      simp only [BitVec.toNat_sub, BitVec.toNat_ofNat, one]
      omega
    rw [less, padding_ofNat (by omega) (by omega)]
    omega
  · exact padding_ofNat small short

/-- No word has a number of 2^31 digits. -/
theorem natural_short (base : 10 ≤ b) (word : v.natAbs < 2 ^ 64) : natural b v < 2 ^ 31 := by
  have digits : (Numeral.digits b v.natAbs).length ≤ 64 := by
    apply Numeral.length_digits_le (by omega)
    calc v.natAbs < 2 ^ 64 := word
      _ ≤ b ^ 64 := Nat.pow_le_pow_left (by omega) 64
  rw [natural]
  split <;> omega

end Width

end LMalz.Errput
