import Metafile.Proofs.Decimal.Digits
import Metafile.Proofs.Decimal.Rounding
import Metafile.Proofs.Markup.Plain

/-!
# `Metafile.Proofs.Decimal.Canonical`: one text for each number

A numeral is a sign, the digits of the whole part and the digits behind the point. It is canonical
if there is no zero too many: none in front of the whole part, none at the end of the decimals,
and no sign before a zero. `Numeral.ofUnits` writes a whole number of ten-thousandths. These are
the canonical numerals (`Numeral.isCanonical_iff`), so there is one of them for each number
(`Numeral.IsCanonical.eq_of_toRat`).

The text of a floating-point number is that of its rounding (`Fixed.chars_eq`), written without
what is not needed. Another way is to write all four decimals first, and then to take away the
zeros at the end of the text, the point if it is at the end, and the sign of a zero.
`Numeral.tidied_allPlaces` says that both ways come to the same. `Fixed.text_canonical` puts this
together for every pattern of bits.
-/

set_option autoImplicit false

namespace Metafile.Decimal

open Fixed

/-- A decimal, cut into its sign and the digits in front of the point and behind it. -/
structure Numeral where
  negative : Bool
  whole : List Char
  fraction : List Char
deriving DecidableEq, Repr

namespace Numeral

/-- The sign and the digits in front of the point. -/
def front (n : Numeral) : List Char :=
  (if n.negative then ['-'] else []) ++ n.whole

/-- The point and the digits behind it, if there are any. -/
def pointed : List Char → List Char
  | [] => []
  | digits => '.' :: digits

/-- The characters of a numeral. -/
def chars (n : Numeral) : List Char :=
  n.front ++ pointed n.fraction

/-- Cuts characters after a minus sign in front, and at the first point. -/
def ofChars (cs : List Char) : Numeral :=
  let negative := cs.head? == some '-'
  let unsigned := cs.drop negative.toNat
  ⟨negative, unsigned.takeWhile (· != '.'), (unsigned.dropWhile (· != '.')).tail⟩

/-- The number that a numeral stands for. -/
def toRat (n : Numeral) : Rat :=
  let magnitude : Rat :=
    Nat.ofDigitChars 10 n.whole 0 + Nat.ofDigitChars 10 n.fraction 0 / 10 ^ n.fraction.length
  if n.negative then -magnitude else magnitude

/-- A numeral with at most four decimals and without a zero or a sign that is not needed. -/
structure IsCanonical (n : Numeral) : Prop where
  whole_digits : Digits n.whole
  whole_ne_nil : n.whole ≠ []
  leading : n.whole.head? = some '0' → n.whole = ['0']
  fraction_digits : Digits n.fraction
  fraction_short : n.fraction.length ≤ places
  trailing : n.fraction.getLast? ≠ some '0'
  signed : n.negative = true → ¬(n.whole = ['0'] ∧ n.fraction = [])

/-- Whether a numeral is canonical is found by looking at its digits. -/
instance (n : Numeral) : Decidable n.IsCanonical :=
  decidable_of_iff (Digits n.whole ∧ n.whole ≠ [] ∧
      (n.whole.head? = some '0' → n.whole = ['0']) ∧ Digits n.fraction ∧
      n.fraction.length ≤ places ∧ n.fraction.getLast? ≠ some '0' ∧
      (n.negative = true → ¬(n.whole = ['0'] ∧ n.fraction = [])))
    ⟨fun ⟨digits, ne_nil, leading, decimals, short, trailing, signed⟩ =>
      ⟨digits, ne_nil, leading, decimals, short, trailing, signed⟩,
    fun h => ⟨h.whole_digits, h.whole_ne_nil, h.leading, h.fraction_digits, h.fraction_short,
      h.trailing, h.signed⟩⟩

variable {n : Numeral}

/-! ### Characters and numerals -/

/-- The characters of a numeral are cut into the same numeral again. -/
theorem ofChars_chars (hdigits : Digits n.whole) (hne : n.whole ≠ []) : ofChars n.chars = n := by
  obtain ⟨negative, whole, fraction⟩ := n
  have hbefore : ∀ c ∈ whole, (c != '.') = true := by
    rintro c hc
    rw [bne_iff_ne]
    rintro rfl
    exact absurd (hdigits _ hc) (by decide)
  -- a digit in front is not a sign
  have hcut (behind : List Char) (sign : Bool) :
      ofChars ((if sign then ['-'] else []) ++ whole ++ behind) =
        ⟨sign, (whole ++ behind).takeWhile (· != '.'),
          ((whole ++ behind).dropWhile (· != '.')).tail⟩ := by
    cases sign with
    | true => rfl
    | false =>
        obtain ⟨first, others, rfl⟩ := List.exists_cons_of_ne_nil hne
        have hfirst : (first == '-') = false := by
          rw [beq_eq_false_iff_ne]
          rintro rfl
          exact absurd (hdigits _ List.mem_cons_self) (by decide)
        simp [ofChars, hfirst]
  rw [chars, front, hcut, List.takeWhile_append_of_pos hbefore,
    List.dropWhile_append_of_pos hbefore]
  cases fraction with
  | nil => simp [pointed]
  | cons digit digits => simp [pointed]

/-- Decimals that are there have a point before them. -/
theorem pointed_of_ne_nil {digits : List Char} (h : digits ≠ []) :
    pointed digits = '.' :: digits := by
  cases digits with
  | nil => exact absurd rfl h
  | cons digit digits => rfl

/-! ### The numeral of a whole number of ten-thousandths -/

/-- The numeral of a whole number of ten-thousandths. -/
def ofUnits (k : Int) : Numeral where
  negative := decide (k < 0)
  whole := Nat.toDigits 10 (k.natAbs / Nat.pow 10 places)
  fraction := trimZeros (padded places (k.natAbs % Nat.pow 10 places))

/-- The numeral of a whole number of ten-thousandths with all its decimals. The sign is that of
the number before it was rounded. -/
def allPlaces (negative : Bool) (units : Nat) : Numeral where
  negative := negative
  whole := Nat.toDigits 10 (units / Nat.pow 10 places)
  fraction := padded places (units % Nat.pow 10 places)

/-- Zero is written as one digit, without a sign and without a point. -/
theorem chars_ofUnits_zero : (ofUnits 0).chars = ['0'] := rfl

/-- The sign of a number stands in its numeral, if it is not a zero. -/
theorem ofUnits_signed {negative : Bool} {units : Nat} (h : negative = true → units ≠ 0) :
    ofUnits (if negative then -(units : Int) else units) =
      ⟨negative, Nat.toDigits 10 (units / Nat.pow 10 places),
        trimZeros (padded places (units % Nat.pow 10 places))⟩ := by
  cases negative with
  | false => simp [ofUnits]
  | true =>
      have hpos : 0 < units := Nat.pos_of_ne_zero (h rfl)
      simp [ofUnits, hpos]

section Units

variable (k : Int)

/-- The characters of a number of ten-thousandths: its sign, and then its magnitude. -/
theorem chars_ofUnits :
    (ofUnits k).chars = (if k < 0 then ['-'] else []) ++ magnitude k.natAbs := by
  have hdecimals (fraction : Nat) :
      decimals fraction = pointed (trimZeros (padded places fraction)) := rfl
  simp only [chars, front, ofUnits, magnitude, hdecimals, List.append_assoc, decide_eq_true_eq]

/-- The whole part of the numeral is the quotient by ten thousand. -/
theorem ofDigitChars_whole_ofUnits :
    Nat.ofDigitChars 10 (ofUnits k).whole 0 = k.natAbs / 10 ^ places :=
  Nat.ofDigitChars_ten_toDigits

/-- There are four decimals at most. -/
theorem length_fraction_ofUnits : (ofUnits k).fraction.length ≤ places :=
  (length_trimZeros_le _).trans_eq (length_padded places _)

/-- The decimals of the numeral are the remainder, with the zeros that were taken away put back.
-/
theorem ofDigitChars_fraction_ofUnits :
    Nat.ofDigitChars 10 (ofUnits k).fraction 0 * 10 ^ (places - (ofUnits k).fraction.length) =
      k.natAbs % 10 ^ places := by
  have hdigits := ofDigitChars_trimZeros (padded places (k.natAbs % 10 ^ places))
  rwa [length_padded, ofDigitChars_padded, Nat.mod_mod] at hdigits

/-- Every number of ten-thousandths has a canonical numeral. -/
theorem isCanonical_ofUnits : (ofUnits k).IsCanonical where
  whole_digits := fun _ hc => Nat.isDigit_of_mem_toDigits (by decide) (by decide) hc
  whole_ne_nil := Nat.toDigits_ne_nil
  leading := by
    intro hhead
    rw [ofUnits, eq_zero_of_head?_toDigits hhead, Nat.toDigits_zero]
  fraction_digits := fun _ hc => padded_isDigit _ _ _ (mem_of_mem_trimZeros hc)
  fraction_short := length_fraction_ofUnits k
  trailing := getLast?_trimZeros _
  signed := by
    rintro hnegative ⟨hwhole, hfraction⟩
    have hunits := ofDigitChars_whole_ofUnits k
    have hrest := ofDigitChars_fraction_ofUnits k
    -- without digits on either side the number of units is zero, which has no sign
    have hzero : k.natAbs = 0 := by
      rw [hwhole] at hunits
      rw [hfraction, Nat.ofDigitChars_nil, Nat.zero_mul] at hrest
      rw [← Nat.div_add_mod k.natAbs (10 ^ places), ← hunits, ← hrest]
      rfl
    exact (of_decide_eq_true hnegative).ne (Int.natAbs_eq_zero.1 hzero)

/-- The numeral stands for as many ten-thousandths as it is the numeral of. -/
theorem toRat_ofUnits : (ofUnits k).toRat = k / 10 ^ places := by
  have hscale : (10 : Rat) ^ places = 10 ^ (ofUnits k).fraction.length *
      10 ^ (places - (ofUnits k).fraction.length) := by
    rw [← pow_add, Nat.add_sub_cancel' (length_fraction_ofUnits k)]
  have hfraction : (Nat.ofDigitChars 10 (ofUnits k).fraction 0 : Rat) /
      10 ^ (ofUnits k).fraction.length = (k.natAbs % 10 ^ places : Nat) / 10 ^ places := by
    rw [hscale, ← ofDigitChars_fraction_ofUnits k, Nat.cast_mul, Nat.cast_pow]
    exact (mul_div_mul_right _ _ (by positivity)).symm
  have hmagnitude : ((k.natAbs / 10 ^ places : Nat) : Rat) + (k.natAbs % 10 ^ places : Nat) /
      10 ^ places = (k.natAbs : Rat) / 10 ^ places := by
    rw [eq_div_iff (by positivity), add_mul, div_mul_cancel₀ _ (by positivity), mul_comm]
    exact_mod_cast Nat.div_add_mod k.natAbs (10 ^ places)
  rw [toRat, ofDigitChars_whole_ofUnits, hfraction, hmagnitude, Nat.cast_natAbs]
  by_cases hk : k < 0
  · simp [ofUnits, hk, abs_of_neg hk, neg_div]
  · simp [ofUnits, hk, abs_of_nonneg (not_lt.1 hk)]

end Units

/-- Every canonical numeral is that of some number of ten-thousandths. -/
theorem IsCanonical.eq_ofUnits (h : n.IsCanonical) : ∃ k, n = ofUnits k := by
  obtain ⟨negative, whole, fraction⟩ := n
  -- both parts are digits of a number, and the second part is filled up to all places
  have hroom : 10 ^ fraction.length * 10 ^ (places - fraction.length) = 10 ^ places := by
    rw [← pow_add, Nat.add_sub_cancel' h.fraction_short]
  generalize hfront : Nat.ofDigitChars 10 whole 0 = front
  generalize hbehind :
    Nat.ofDigitChars 10 fraction 0 * 10 ^ (places - fraction.length) = behind
  have hless : behind < 10 ^ places := by
    rw [← hbehind, ← hroom]
    exact Nat.mul_lt_mul_of_pos_right h.fraction_digits.ofDigitChars_lt (by positivity)
  have hwhole : Nat.toDigits 10 front = whole := by
    rw [← hfront]
    exact h.whole_digits.toDigits_ofDigitChars h.whole_ne_nil h.leading
  have hfraction : trimZeros (padded places behind) = fraction := by
    rw [← hbehind, padded_shifted h.fraction_digits h.fraction_short]
    exact trimZeros_append_replicate h.trailing _
  have hsigned : negative = true → 10 ^ places * front + behind ≠ 0 := by
    intro hnegative hzero
    obtain ⟨hfront, rfl⟩ := Nat.add_eq_zero_iff.1 hzero
    obtain rfl : front = 0 := (Nat.mul_eq_zero.1 hfront).resolve_left (by positivity)
    exact h.signed hnegative ⟨hwhole.symm, hfraction.symm⟩
  refine ⟨_, .trans ?_ (ofUnits_signed hsigned).symm⟩
  rw [Nat.pow_eq, Nat.mul_add_div (by positivity), Nat.div_eq_of_lt hless, Nat.add_zero,
    Nat.mul_add_mod, Nat.mod_eq_of_lt hless, hwhole, hfraction]

/-- The text of a whole number of ten-thousandths is cut into its numeral. -/
theorem ofChars_ofUnits (k : Int) : ofChars (ofUnits k).chars = ofUnits k :=
  ofChars_chars (isCanonical_ofUnits k).whole_digits (isCanonical_ofUnits k).whole_ne_nil

/-- Numerals that stand for the same rational number are those of the same number of
ten-thousandths. -/
theorem toRat_ofUnits_inj {i j : Int} : (ofUnits i).toRat = (ofUnits j).toRat ↔ i = j := by
  rw [toRat_ofUnits, toRat_ofUnits, div_left_inj' (by positivity), Int.cast_inj]

/-- Different numbers of ten-thousandths have different numerals. -/
theorem ofUnits_injective : Function.Injective ofUnits :=
  fun _ _ heq => toRat_ofUnits_inj.1 (congrArg toRat heq)

/-- The canonical numerals are those of whole numbers of ten-thousandths. -/
theorem isCanonical_iff : n.IsCanonical ↔ ∃ k, n = ofUnits k :=
  ⟨IsCanonical.eq_ofUnits, fun ⟨k, hk⟩ => hk ▸ isCanonical_ofUnits k⟩

example : ¬(ofChars ['-', '0']).IsCanonical ∧ ¬(ofChars ['0', '1']).IsCanonical ∧
    ¬(ofChars ['1', '.', '5', '0']).IsCanonical ∧ (ofChars ['-', '0', '.', '5']).IsCanonical := by
  decide

/-- There is one canonical numeral for each number. -/
theorem IsCanonical.eq_of_toRat {m : Numeral} (h : m.IsCanonical) (k : n.IsCanonical)
    (heq : m.toRat = n.toRat) : m = n := by
  obtain ⟨i, rfl⟩ := h.eq_ofUnits
  obtain ⟨j, rfl⟩ := k.eq_ofUnits
  rw [toRat_ofUnits_inj.1 heq]

/-! ### Zeros taken away at the end of a text -/

/-- Takes away the zeros at the end, and then a point at the end. -/
def shortened (cs : List Char) : List Char :=
  let kept := trimZeros cs
  if kept.getLast? = some '.' then kept.dropLast else kept

/-- Takes away what is not needed at the end, and then the sign of a zero. -/
def tidied (cs : List Char) : List Char :=
  if shortened cs = ['-', '0'] then ['0'] else shortened cs

/-- Where there are decimals, only they lose zeros. -/
theorem shortened_chars (hne : n.fraction ≠ []) (hdigits : Digits n.fraction) :
    shortened n.chars = chars { n with fraction := trimZeros n.fraction } := by
  have hkept : trimZeros n.chars = n.front ++ '.' :: trimZeros n.fraction := by
    rw [chars, pointed_of_ne_nil hne, trimZeros_append_cons (by decide)]
  rw [shortened, hkept, chars]
  rcases eq_or_ne (trimZeros n.fraction) [] with hnone | hsome
  · rw [hnone, List.getLast?_concat, if_pos rfl, List.dropLast_concat]
    exact (List.append_nil _).symm
  · have hlast : (trimZeros n.fraction).getLast? ≠ some '.' := by
      intro hpoint
      have hmem := mem_of_mem_trimZeros (List.mem_of_getLast? hpoint)
      exact absurd (hdigits _ hmem) (by decide)
    rw [List.getLast?_append_of_ne_nil _ (List.cons_ne_nil _ _),
      List.getLast?_cons_of_ne_nil hsome, if_neg hlast, pointed_of_ne_nil hsome]
    rfl

/-- No text of a canonical numeral is a zero with a sign. -/
theorem IsCanonical.chars_ne_minus_zero (h : n.IsCanonical) : n.chars ≠ ['-', '0'] := by
  intro heq
  have hsame := ofChars_chars h.whole_digits h.whole_ne_nil
  rw [heq] at hsame
  exact h.signed (hsame ▸ rfl) ⟨hsame ▸ rfl, hsame ▸ rfl⟩

/-- Written with all places and without what is not needed, a number is written as it is. -/
theorem tidied_allPlaces (negative : Bool) (units : Nat) :
    tidied (allPlaces negative units).chars =
      (ofUnits (if negative then -units else units)).chars := by
  have hlength : (allPlaces negative units).fraction.length = 4 := length_padded places _
  have hne : (allPlaces negative units).fraction ≠ [] := List.ne_nil_of_length_eq_add_one hlength
  rw [tidied, shortened_chars hne (digits_padded _ _)]
  by_cases hzero : negative = true ∧ units = 0
  · obtain ⟨rfl, rfl⟩ := hzero
    rfl
  · have hunits := ofUnits_signed fun hnegative hnone => hzero ⟨hnegative, hnone⟩
    have hcanonical := isCanonical_ofUnits (if negative then -units else units)
    rw [hunits] at hcanonical ⊢
    exact if_neg hcanonical.chars_ne_minus_zero

end Numeral

namespace Fixed

/-- The characters of a number are those of its rounding. -/
theorem chars_eq (v : Float) :
    chars v = (Numeral.ofUnits (signedUnits (Value.ofFloat v))).chars := by
  unfold chars
  cases Value.ofFloat v with
  | nan => exact Numeral.chars_ofUnits_zero.symm
  | infinite negative => exact Numeral.chars_ofUnits_zero.symm
  | finite negative b =>
      simp only [signedUnits, Numeral.chars_ofUnits]
      generalize units b = count
      cases negative with
      | false => simp
      | true =>
          rcases Nat.eq_zero_or_pos count with rfl | hpos
          · simp
          · simp [hpos, hpos.ne']

/-- The text of a number of 64 bits is the numeral of its ten-thousandths after rounding. -/
theorem toList_text (bits : UInt64) :
    (text (Float.ofBits bits)).toList =
      (Numeral.ofUnits (signedUnits (Value.ofBits bits.toNat))).chars := by
  rw [text, String.toList_ofList, chars_eq, Value.ofFloat_ofBits]

/-- Two numbers have the same text if and only if they have the same ten-thousandths after
rounding. -/
theorem text_eq_iff (bits other : UInt64) :
    text (Float.ofBits other) = text (Float.ofBits bits) ↔
      signedUnits (Value.ofBits other.toNat) = signedUnits (Value.ofBits bits.toNat) := by
  rw [← String.toList_inj, toList_text, toList_text]
  refine ⟨fun h => Numeral.ofUnits_injective ?_, fun h => by rw [h]⟩
  rw [← Numeral.ofChars_ofUnits, h, Numeral.ofChars_ofUnits]

/-- A digit, a sign and a point are no letters. -/
theorem isAlpha_of_isDecimalChar {c : Char} (h : isDecimalChar c = true) : c.isAlpha = false := by
  have hdigits : ∀ d < 10, (Nat.digitChar d).isAlpha = false := by decide
  simp only [isDecimalChar, Bool.or_eq_true, beq_iff_eq] at h
  rcases h with (hdigit | rfl) | rfl
  · obtain ⟨d, hd, rfl⟩ := exists_digitChar hdigit
    exact hdigits d hd
  · rfl
  · rfl

/-- The text of every number of 64 bits is a canonical decimal. It stands for the rounding of the
exact value, and no other canonical decimal does. It is the text with all four decimals without
the zeros at its end and without the sign of a zero, and its whole part is not changed by that.
All its characters are plain, and none is a letter. Numbers have the same text if and only if they
have the same rounding. -/
theorem text_canonical (bits : UInt64) :
    let value := Value.ofBits bits.toNat
    let cs := (text (Float.ofBits bits)).toList
    let numeral := Numeral.ofChars cs
    numeral.chars = cs ∧ numeral.IsCanonical ∧ cs ≠ ['-', '0'] ∧
    (∃ n : Int, IsRounding (exactUnits value) n ∧ numeral.toRat = n / 10 ^ places ∧
      match value with
      | .finite negative _ =>
          let all := Numeral.allPlaces negative n.natAbs
          cs = Numeral.tidied all.chars ∧ numeral.whole = all.whole
      | _ => cs = ['0']) ∧
    (∀ other : Numeral, other.IsCanonical → other.toRat = numeral.toRat → other = numeral) ∧
    (∀ c ∈ cs, isDecimalChar c = true ∧ Markup.isPlain c = true ∧ c.isAlpha = false) ∧
    (∀ other : UInt64, text (Float.ofBits other) = text (Float.ofBits bits) ↔
      ∃ n, IsRounding (exactUnits value) n ∧
        IsRounding (exactUnits (Value.ofBits other.toNat)) n) := by
  intro value cs numeral
  -- the characters are those of the numeral for the rounded number of millionths
  have hcs : cs = (Numeral.ofUnits (signedUnits value)).chars := toList_text bits
  have hnumeral : numeral = Numeral.ofUnits (signedUnits value) := by
    rw [← Numeral.ofChars_ofUnits, ← hcs]
  have hcanonical : numeral.IsCanonical := hnumeral ▸ Numeral.isCanonical_ofUnits _
  have hchars : numeral.chars = cs := by rw [hnumeral, hcs]
  refine ⟨hchars, hcanonical, hchars ▸ hcanonical.chars_ne_minus_zero,
    ⟨signedUnits value, isRounding_signedUnits value, ?number, ?places⟩,
    fun other hother heq => hother.eq_of_toRat hcanonical heq, fun c hc => ?character,
    fun other => ?same⟩
  case number => rw [hnumeral, Numeral.toRat_ofUnits]
  case places =>
    clear_value value
    cases value with
    | nan => exact hcs.trans Numeral.chars_ofUnits_zero
    | infinite negative => exact hcs.trans Numeral.chars_ofUnits_zero
    | finite negative b =>
        -- the sign is not in the units, which are those of the magnitude
        have hunits : (signedUnits (.finite negative b)).natAbs = units b := by
          cases negative <;> simp [signedUnits]
        simp only [hunits, hnumeral, hcs]
        refine ⟨(Numeral.tidied_allPlaces negative (units b)).symm, ?_⟩
        simp only [Numeral.ofUnits, Numeral.allPlaces, hunits]
  case character =>
    rw [show cs = chars _ from String.toList_ofList] at hc
    have hdecimal := chars_isDecimalChar _ c hc
    exact ⟨hdecimal, Markup.isPlain_of_decimal hdecimal, isAlpha_of_isDecimalChar hdecimal⟩
  case same =>
    rw [text_eq_iff]
    refine ⟨fun h => ⟨_, isRounding_signedUnits _, h ▸ isRounding_signedUnits _⟩, ?_⟩
    -- a rounding is unique, so a common one makes the units equal
    rintro ⟨n, hn, hother⟩
    rw [(isRounding_signedUnits _).unique hother, (isRounding_signedUnits _).unique hn]

/-- A number below zero halfway between two whole numbers of ten-thousandths, and another one with
the same rounding. -/
theorem text_canonical_tie :
    let value := Value.ofBits 0xc092c02000000000
    let numeral : Numeral := ⟨true, ['1', '2', '0', '0'], ['0', '3', '1', '2']⟩
    exactUnits value = -12000312 - 1 / 2 ∧ numeral.IsCanonical ∧
    (text (Float.ofBits 0xc092c02000000000)).toList = numeral.chars ∧
    Markup.isPlain '.' = true ∧
    text (Float.ofBits 0xc092c01ff2e48e8a) = text (Float.ofBits 0xc092c02000000000) := by
  intro value numeral
  have hexact : exactUnits value = -12000312 - 1 / 2 := by
    have hvalue : value = .finite true ⟨0x12c02000000000, -42⟩ := by decide
    rw [hvalue]
    norm_num [exactUnits, Value.toRat, Binary.toRat, places]
  -- the tie goes to the even one of its two neighbours
  have hrounding : IsRounding (exactUnits value) (-12000312) := by
    rw [hexact]
    exact ⟨by norm_num, fun _ => by decide⟩
  have hother : IsRounding (exactUnits (Value.ofBits 0xc092c01ff2e48e8a)) (-12000312) := by
    have hvalue : Value.ofBits 0xc092c01ff2e48e8a = .finite true ⟨0x12c01ff2e48e8a, -42⟩ := by
      decide
    rw [hvalue]
    exact .of_lt (by norm_num [exactUnits, Value.toRat, Binary.toRat, places])
  have hcanonical : numeral.IsCanonical := by decide
  obtain ⟨hchars, -, -, ⟨n, hn, hnumber, -⟩, hunique, hplain, hsame⟩ :=
    text_canonical 0xc092c02000000000
  obtain rfl := hn.unique hrounding
  have hnumeral := hunique numeral hcanonical (hnumber.symm ▸ by decide +kernel)
  have htext : (text (Float.ofBits 0xc092c02000000000)).toList = numeral.chars := by
    rw [hnumeral, hchars]
  refine ⟨hexact, hcanonical, htext, (hplain '.' ?_).2.1, (hsame _).2 ⟨_, hrounding, hother⟩⟩
  rw [htext]
  decide

end Fixed

end Metafile.Decimal
