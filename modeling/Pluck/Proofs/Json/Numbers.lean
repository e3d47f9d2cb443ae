import Mathlib.Data.List.TakeWhile
import Pluck.Json.Printer
import Pluck.Json.Reader
import Pluck.Proofs.Binary64.Rounding
import Pluck.Proofs.Text.Runs

/-!
# Reading a printed number

Every number is printed as a `Numeral`: a whole part, and perhaps a fraction and a power of ten. The reader takes a
numeral apart in the same way (`number?_numeral`), wherever the text goes on with something else. An integer is all
whole part. The parts of a floating-point number make up a decimal number with the code of the number that was printed,
whichever of the layouts was taken (`exists_numeral_print`). So what is printed is read: `number?_print`.
-/

namespace Pluck.Json

/-! ### Digits -/

/-- A number that stands before the text has ended there. -/
def EndsNumber (rest : List Char) : Prop :=
  ∀ c ∈ rest.head?, c.isDigit = false ∧ c ≠ '.' ∧ c ≠ 'e' ∧ c ≠ 'E'

theorem digits?_append {digits rest : List Char} (hne : digits ≠ []) (hdigits : ∀ c ∈ digits, c.isDigit)
    (hrest : ∀ c ∈ rest.head?, c.isDigit = false) : digits? (digits ++ rest) = some (digits, rest) := by
  have htaken : (digits ++ rest).takeWhile Char.isDigit = digits := by
    rw [Text.takeWhile_append_of_head?_eq hrest, List.takeWhile_eq_self_iff.2 hdigits]
  have hleft : (digits ++ rest).dropWhile Char.isDigit = rest := by
    rw [Text.dropWhile_append_of_head?_eq hrest, List.dropWhile_eq_nil_iff.2 hdigits, List.nil_append]
  rw [digits?, htaken, hleft]
  simp [hne]

theorem isDigit_of_mem_toDigits {n : Nat} {c : Char} (hc : c ∈ Nat.toDigits 10 n) : c.isDigit :=
  Nat.isDigit_of_mem_toDigits (by decide) (by decide) hc

theorem forall_isDigit_zero : ∀ c ∈ ['0'], c.isDigit :=
  List.forall_mem_singleton.2 rfl

theorem head?_toDigits {n : Nat} (hn : n ≠ 0) : (Nat.toDigits 10 n).head? ≠ some '0' := by
  induction n using Nat.strongRecOn with
  | ind n ih =>
    rw [Nat.toDigits_eq_if (by decide)]
    split
    next hsmall =>
      rw [List.head?_cons, Ne, Option.some.injEq]
      have hdigit : ∀ d < 10, d ≠ 0 → Nat.digitChar d ≠ '0' := by decide
      exact hdigit n hsmall hn
    next hlarge =>
      rw [List.head?_append, Option.or_of_isSome (by simp [Nat.toDigits_ne_nil])]
      exact ih (n / 10) (by omega) (by omega)

/-! ### Numerals -/

/-- The parts of a number's text, without its sign. -/
structure Numeral where
  whole : List Char
  fraction : Option (List Char)
  exponent : Option Int
  whole_ne_nil : whole ≠ []
  isDigit_whole : ∀ c ∈ whole, c.isDigit
  eq_zero_of_head? : whole.head? = some '0' → whole = ['0']
  fraction_ne_nil : fraction ≠ some []
  isDigit_fraction : ∀ c ∈ fraction.getD [], c.isDigit

namespace Numeral

def fractionText (fraction : Option (List Char)) : List Char :=
  fraction.elim [] ('.' :: ·)

def exponentText (exponent : Option Int) : List Char :=
  exponent.elim [] fun power => 'e' :: (if power < 0 then '-' else '+') :: Nat.toDigits 10 power.natAbs

def text (numeral : Numeral) : List Char :=
  numeral.whole ++ fractionText numeral.fraction ++ exponentText numeral.exponent

def decimal (numeral : Numeral) : Decimal :=
  ⟨Nat.ofDigitChars 10 (numeral.whole ++ numeral.fraction.getD []) 0,
    numeral.exponent.getD 0 - (numeral.fraction.getD []).length⟩

end Numeral

theorem fraction?_fractionText {fraction : Option (List Char)} {rest : List Char} (hne : fraction ≠ some [])
    (hdigits : ∀ c ∈ fraction.getD [], c.isDigit) (hrest : ∀ c ∈ rest.head?, c.isDigit = false ∧ c ≠ '.') :
    fraction? (Numeral.fractionText fraction ++ rest) = some (fraction, rest) := by
  cases fraction with
  | none =>
    rw [Numeral.fractionText, Option.elim_none, List.nil_append, fraction?]
    rintro tail rfl
    exact (hrest '.' rfl).2 rfl
  | some digits =>
    rw [Numeral.fractionText, Option.elim_some, List.cons_append, fraction?,
      digits?_append (fun hnil => hne (congrArg some hnil)) hdigits fun c hc => (hrest c hc).1]
    rfl

theorem exponent?_exponentText {exponent : Option Int} {rest : List Char} (hrest : EndsNumber rest) :
    exponent? (Numeral.exponentText exponent ++ rest) = some (exponent, rest) := by
  cases exponent with
  | none =>
    rw [Numeral.exponentText, Option.elim_none, List.nil_append]
    cases rest with
    | nil => rfl
    | cons c rest =>
      obtain ⟨_, _, hlower, hupper⟩ := hrest c rfl
      rw [exponent?, if_neg (not_or.2 ⟨hlower, hupper⟩)]
  | some power =>
    have hdigits : digits? (Nat.toDigits 10 power.natAbs ++ rest) = some (Nat.toDigits 10 power.natAbs, rest) :=
      digits?_append Nat.toDigits_ne_nil (fun c hc => isDigit_of_mem_toDigits hc) fun c hc => (hrest c hc).1
    rw [Numeral.exponentText, Option.elim_some, List.cons_append, List.cons_append, exponent?, if_pos (.inl rfl)]
    by_cases hpower : power < 0
    · simp only [hpower, if_true, sign, hdigits, mapValue, Option.map_some, Nat.ofDigitChars_ten_toDigits,
        Int.ofNat_natAbs_of_nonpos (Int.le_of_lt hpower), Int.neg_neg]
    · simp only [hpower, if_false, sign, hdigits, mapValue, Option.map_some, Nat.ofDigitChars_ten_toDigits,
        Int.natAbs_of_nonneg (Int.not_lt.1 hpower), Bool.false_eq_true]

theorem head?_exponentText_append (exponent : Option Int) {rest : List Char} (hrest : EndsNumber rest) :
    ∀ c ∈ (Numeral.exponentText exponent ++ rest).head?, c.isDigit = false ∧ c ≠ '.' := by
  cases exponent with
  | none => exact fun c hc => ⟨(hrest c hc).1, (hrest c hc).2.1⟩
  | some power =>
    intro c hc
    obtain rfl := Option.some.inj hc
    decide

theorem head?_fractionText_append (fraction : Option (List Char)) {rest : List Char}
    (hrest : ∀ c ∈ rest.head?, c.isDigit = false) :
    ∀ c ∈ (Numeral.fractionText fraction ++ rest).head?, c.isDigit = false := by
  cases fraction with
  | none => exact hrest
  | some digits =>
    intro c hc
    obtain rfl := Option.some.inj hc
    decide

theorem sign_append {whole : List Char} (hne : whole ≠ []) (hdigits : ∀ c ∈ whole, c.isDigit) (negative : Bool)
    (later : List Char) :
    let text := (if negative then ['-'] else []) ++ whole ++ later
    (text.head? == some '-') = negative ∧ (if negative then text.tail else text) = whole ++ later := by
  obtain ⟨c, digits, rfl⟩ := List.exists_cons_of_ne_nil hne
  cases negative with
  | true => exact ⟨rfl, rfl⟩
  | false =>
    have hc : c ≠ '-' := by
      rintro rfl
      exact absurd (hdigits '-' List.mem_cons_self) (by decide)
    exact ⟨by simpa using hc, rfl⟩

theorem number?_numeral (numeral : Numeral) (negative : Bool) {rest : List Char} (hrest : EndsNumber rest) :
    number? ((if negative then ['-'] else []) ++ numeral.text ++ rest) =
      (Number.ofParts? negative numeral.whole numeral.fraction numeral.exponent).map (·, rest) := by
  obtain ⟨whole, fraction, exponent, hwhole, hdigits, hzero, hfraction, hplaces⟩ := numeral
  have hexponent := head?_exponentText_append exponent hrest
  have hread := digits?_append hwhole hdigits
    (head?_fractionText_append fraction fun c hc => (hexponent c hc).1)
  obtain ⟨hnegative, htail⟩ := sign_append hwhole hdigits negative
    (Numeral.fractionText fraction ++ (Numeral.exponentText exponent ++ rest))
  have hleading : ¬(whole.head? = some '0' ∧ whole ≠ ['0']) := fun h => h.2 (hzero h.1)
  rw [Numeral.text, number?, ← List.append_assoc, ← List.append_assoc, List.append_assoc, List.append_assoc, hnegative,
    htail, hread]
  simp only [Option.bind_eq_bind, Option.bind_some, if_neg hleading,
    fraction?_fractionText hfraction hplaces hexponent, exponent?_exponentText hrest]
  cases Number.ofParts? negative whole fraction exponent <;> rfl

/-! ### Integers -/

def Numeral.ofNat (n : Nat) : Numeral where
  whole := Nat.toDigits 10 n
  fraction := none
  exponent := none
  whole_ne_nil := Nat.toDigits_ne_nil
  isDigit_whole _ hc := isDigit_of_mem_toDigits hc
  eq_zero_of_head? hhead := by
    by_cases hn : n = 0
    · rw [hn, Nat.toDigits_zero]
    · exact absurd hhead (head?_toDigits hn)
  fraction_ne_nil := nofun
  isDigit_fraction := nofun

theorem Numeral.text_ofNat (n : Nat) : (Numeral.ofNat n).text = Nat.toDigits 10 n := by
  simp [text, ofNat, fractionText, exponentText]

theorem ofInteger?_natural (value : UInt64) : Number.ofInteger? false value.toNat = some (.natural value) := by
  have hvalue : value.toNat < Nat.pow 2 64 := value.toNat_lt
  simp [Number.ofInteger?, hvalue]

theorem ofInteger?_negative {value : Int64} (hnegative : value < 0) :
    Number.ofInteger? true value.toInt.natAbs = some (.negative value hnegative) := by
  have hint : value.toInt < 0 := by simpa [Int64.lt_iff_toInt_lt] using hnegative
  have hvalue : Int64.ofInt (-value.toInt.natAbs) = value := by
    rw [Int.ofNat_natAbs_of_nonpos (Int.le_of_lt hint), Int.neg_neg, Int64.ofInt_toInt]
  have hmagnitude : value.toInt.natAbs ≤ Nat.pow 2 63 := by
    have := value.le_toInt
    rw [Nat.pow_eq]
    omega
  simp only [Number.ofInteger?, hvalue]
  simp [hmagnitude, hnegative]

/-! ### Floating-point numbers -/

/-- The numeral writes the digits with the first of them at the given power of ten. -/
def Numeral.Writes (numeral : Numeral) (digits : List Char) (exponent : Int) : Prop :=
  (numeral.fraction.isSome ∨ numeral.exponent.isSome) ∧
    numeral.decimal.code = Decimal.code ⟨Nat.ofDigitChars 10 digits 0, exponent + 1 - digits.length⟩

section Layout

variable {digits : List Char} {exponent : Int} (hne : digits ≠ []) (hdigits : ∀ c ∈ digits, c.isDigit)
  (hhead : digits.head? ≠ some '0')

include hne hdigits

/-- Everything follows the decimal point, with a single zero before it. -/
theorem exists_numeral_below_one (hexponent : exponent < 0) :
    ∃ numeral : Numeral, numeral.text = plain digits exponent ∧ numeral.Writes digits exponent := by
  have hplaces : ∀ c ∈ List.replicate (-exponent - 1).toNat '0' ++ digits, c.isDigit := by
    rw [List.forall_mem_append]
    exact ⟨List.forall_mem_replicate.2 (.inr rfl), hdigits⟩
  refine ⟨⟨['0'], some (List.replicate (-exponent - 1).toNat '0' ++ digits), none, List.cons_ne_nil _ _,
    forall_isDigit_zero, fun _ => rfl, by simp [hne], hplaces⟩, ?_, .inl rfl, ?_⟩
  · simp [Numeral.text, Numeral.fractionText, Numeral.exponentText, plain, hexponent]
  · change Decimal.code ⟨Nat.ofDigitChars 10 (List.replicate ((-exponent - 1).toNat + 1) '0' ++ digits) 0,
      0 - (List.replicate (-exponent - 1).toNat '0' ++ digits).length⟩ = _
    rw [Nat.ofDigitChars_append, Nat.ofDigitChars_replicate_zero, Nat.mul_zero, List.length_append,
      List.length_replicate]
    congr 2
    omega

include hhead

theorem exists_numeral_scientific :
    ∃ numeral : Numeral, numeral.text = scientific 'e' digits exponent ∧ numeral.Writes digits exponent := by
  obtain ⟨c, places, rfl⟩ := List.exists_cons_of_ne_nil hne
  obtain ⟨hc, hplaces⟩ := List.forall_mem_cons.1 hdigits
  have hwhole : ∀ d ∈ [c], d.isDigit := by simpa using hc
  cases places with
  | nil =>
    refine ⟨⟨[c], none, some exponent, List.cons_ne_nil c [], hwhole, fun hzero => absurd hzero hhead, nofun, nofun⟩,
      rfl, .inr rfl, ?_⟩
    change Decimal.code ⟨Nat.ofDigitChars 10 [c] 0, exponent - (0 : Nat)⟩ = _
    congr 2
    simp
  | cons d places =>
    refine ⟨⟨[c], some (d :: places), some exponent, List.cons_ne_nil c [], hwhole, fun hzero => absurd hzero hhead,
      by simp, hplaces⟩, rfl, .inr rfl, ?_⟩
    change Decimal.code ⟨Nat.ofDigitChars 10 (c :: d :: places) 0, exponent - (d :: places).length⟩ = _
    congr 2
    simp only [List.length_cons]
    omega

/-- The digits end before the decimal point or at it, and zeros fill the gap. -/
theorem exists_numeral_whole (hexponent : ¬exponent < 0) (hlength : digits.length ≤ exponent.toNat + 1) :
    ∃ numeral : Numeral, numeral.text = plain digits exponent ∧ numeral.Writes digits exponent := by
  obtain ⟨c, rest, rfl⟩ := List.exists_cons_of_ne_nil hne
  generalize hzeros : exponent.toNat + 1 - (c :: rest).length = zeros
  have hwhole : ∀ d ∈ c :: rest ++ List.replicate zeros '0', d.isDigit := by
    rw [List.forall_mem_append]
    exact ⟨hdigits, List.forall_mem_replicate.2 (.inr rfl)⟩
  refine ⟨⟨c :: rest ++ List.replicate zeros '0', some ['0'], none, List.cons_ne_nil c _, hwhole,
    fun hzero => absurd hzero hhead, nofun, forall_isDigit_zero⟩, ?_, .inl rfl, ?_⟩
  · rw [plain, if_neg hexponent]
    simp only [Numeral.text, Numeral.fractionText, Numeral.exponentText, Option.elim_some, Option.elim_none,
      List.append_nil, if_pos hlength, hzeros, List.take_of_length_le hlength]
  · change Decimal.code ⟨Nat.ofDigitChars 10 (c :: rest ++ List.replicate zeros '0' ++ ['0']) 0, 0 - (1 : Nat)⟩ = _
    rw [List.append_assoc, ← List.replicate_succ', Nat.ofDigitChars_append, Nat.ofDigitChars_replicate_zero,
      Nat.mul_comm]
    refine Eq.trans ?_ (Decimal.code_shift _ (zeros + 1) _)
    congr 2
    omega

/-- The decimal point stands among the digits. -/
theorem exists_numeral_between (hexponent : ¬exponent < 0) (hlength : exponent.toNat + 1 < digits.length) :
    ∃ numeral : Numeral, numeral.text = plain digits exponent ∧ numeral.Writes digits exponent := by
  obtain ⟨c, rest, rfl⟩ := List.exists_cons_of_ne_nil hne
  have hplaces : (c :: rest).drop (exponent.toNat + 1) ≠ [] := by
    rw [Ne, List.drop_eq_nil_iff]
    omega
  refine ⟨⟨(c :: rest).take (exponent.toNat + 1), some ((c :: rest).drop (exponent.toNat + 1)), none,
    List.cons_ne_nil c _, fun d hd => hdigits d (List.mem_of_mem_take hd), fun hzero => absurd hzero hhead,
    fun hnil => hplaces (Option.some.inj hnil), fun d hd => hdigits d (List.mem_of_mem_drop hd)⟩, ?_, .inl rfl, ?_⟩
  · rw [plain, if_neg hexponent]
    simp only [Numeral.text, Numeral.fractionText, Numeral.exponentText, Option.elim_some, Option.elim_none,
      List.append_nil, if_neg (Nat.not_le_of_lt hlength), Nat.sub_eq_zero_of_le (Nat.le_of_lt hlength),
      List.replicate_zero]
  · change Decimal.code ⟨Nat.ofDigitChars 10 ((c :: rest).take (exponent.toNat + 1) ++
      (c :: rest).drop (exponent.toNat + 1)) 0, 0 - ((c :: rest).drop (exponent.toNat + 1)).length⟩ = _
    rw [List.take_append_drop, List.length_drop]
    congr 2
    omega

theorem exists_numeral_plain :
    ∃ numeral : Numeral, numeral.text = plain digits exponent ∧ numeral.Writes digits exponent := by
  by_cases hexponent : exponent < 0
  · exact exists_numeral_below_one hne hdigits hexponent
  · by_cases hlength : digits.length ≤ exponent.toNat + 1
    · exact exists_numeral_whole hne hdigits hhead hexponent hlength
    · exact exists_numeral_between hne hdigits hhead hexponent (Nat.lt_of_not_le hlength)

end Layout

/-- The digits of a number without the zeros at the end. -/
theorem exists_significant {n : Nat} (hn : n ≠ 0) :
    ∃ digits zeros, ((Nat.toDigits 10 n).reverse.dropWhile (· == '0')).reverse = digits ∧
      Nat.toDigits 10 n = digits ++ List.replicate zeros '0' ∧ digits ≠ [] ∧ (∀ c ∈ digits, c.isDigit) ∧
      digits.head? ≠ some '0' := by
  generalize hdigits : ((Nat.toDigits 10 n).reverse.dropWhile (· == '0')).reverse = digits
  generalize hzeros : ((Nat.toDigits 10 n).reverse.takeWhile (· == '0')).length = zeros
  have hsplit : Nat.toDigits 10 n = digits ++ List.replicate zeros '0' := by
    have hreplicate : (Nat.toDigits 10 n).reverse.takeWhile (· == '0') = List.replicate zeros '0' :=
      List.eq_replicate_iff.2 ⟨hzeros, fun c hc => by simpa using List.mem_takeWhile_imp hc⟩
    rw [← hdigits, ← List.reverse_replicate, ← hreplicate, ← List.reverse_append, List.takeWhile_append_dropWhile,
      List.reverse_reverse]
  have hhead := head?_toDigits hn
  have hne : digits ≠ [] := by
    rintro rfl
    have := Nat.toDigits_ne_nil (b := 10) (n := n)
    cases zeros with
    | zero => exact this hsplit
    | succ zeros => exact hhead (hsplit ▸ rfl)
  refine ⟨digits, zeros, rfl, hsplit, hne, fun c hc => ?_, fun hzero => hhead ?_⟩
  · exact isDigit_of_mem_toDigits (hsplit ▸ List.mem_append_left _ hc)
  · rw [hsplit, List.head?_append, hzero, Option.some_or]

theorem exists_numeral_print {decimal : Decimal} (hcoefficient : decimal.coefficient ≠ 0) :
    ∃ numeral : Numeral, numeral.text = floatLayout.print decimal ∧
      (numeral.fraction.isSome ∨ numeral.exponent.isSome) ∧ numeral.decimal.code = decimal.code := by
  obtain ⟨coefficient, exponent⟩ := decimal
  obtain ⟨digits, zeros, hsignificant, hsplit, hne, hdigits, hhead⟩ := exists_significant hcoefficient
  have hprint : ∃ numeral : Numeral, numeral.text = floatLayout.print ⟨coefficient, exponent⟩ ∧
      numeral.Writes digits (exponent + (Nat.toDigits 10 coefficient).length - 1) := by
    simp only [FloatLayout.print, hsignificant]
    split
    · exact exists_numeral_plain hne hdigits hhead
    · exact exists_numeral_scientific hne hdigits hhead
  obtain ⟨numeral, htext, hform, hcode⟩ := hprint
  refine ⟨numeral, htext, hform, hcode.trans ?_⟩
  have hvalue : coefficient = Nat.ofDigitChars 10 digits 0 * 10 ^ zeros := by
    rw [← Nat.ofDigitChars_ten_toDigits (n := coefficient), hsplit, Nat.ofDigitChars_append,
      Nat.ofDigitChars_replicate_zero, Nat.mul_comm]
  rw [hsplit, List.length_append, List.length_replicate, hvalue, ← Decimal.code_shift _ zeros]
  congr 2
  omega

theorem ofDecimal?_eq_float {value : Binary64} (hfinite : value.isFinite) {decimal : Decimal}
    (hcode : decimal.code = value.code) : Number.ofDecimal? value.isNegative decimal = some (.float value hfinite) := by
  have hlt : value.code < Binary64.infinityCode := by simpa [Binary64.isFinite] using hfinite
  rw [Number.ofDecimal?, Binary64.ofDecimal?_eq, hcode, if_pos hlt, Binary64.ofCode_code, Option.bind_some,
    dif_pos hfinite]

theorem ofParts?_eq_float {value : Binary64} (hfinite : value.isFinite) {numeral : Numeral}
    (hform : numeral.fraction.isSome ∨ numeral.exponent.isSome) (hcode : numeral.decimal.code = value.code) :
    Number.ofParts? value.isNegative numeral.whole numeral.fraction numeral.exponent = some (.float value hfinite) := by
  rw [Number.ofParts?, ← ofDecimal?_eq_float hfinite hcode]
  · rfl
  · rintro hnone hnone'
    simp [hnone, hnone'] at hform

theorem exists_numeral_floatText (value : Binary64) :
    ∃ numeral : Numeral, floatText value = (if value.isNegative then ['-'] else []) ++ numeral.text ∧
      (numeral.fraction.isSome ∨ numeral.exponent.isSome) ∧ numeral.decimal.code = value.code := by
  by_cases hzero : value.code = 0
  · refine ⟨⟨['0'], some ['0'], none, List.cons_ne_nil _ _, forall_isDigit_zero, fun _ => rfl, nofun,
      forall_isDigit_zero⟩, ?_, .inl rfl, ?_⟩
    · rw [floatText, if_pos hzero]
      rfl
    · exact (Binary64.code_zero _).trans hzero.symm
  · rw [floatText, if_neg hzero]
    have hcode := Binary64.code_shortest value.code
    generalize Binary64.shortest value.code = decimal at hcode
    have hcoefficient : decimal.coefficient ≠ 0 := by
      obtain ⟨coefficient, exponent⟩ := decimal
      rintro rfl
      exact hzero (hcode.symm.trans (Binary64.code_zero exponent))
    obtain ⟨numeral, htext, hform, hdecimal⟩ := exists_numeral_print hcoefficient
    exact ⟨numeral, by rw [htext], hform, hdecimal.trans hcode⟩

/-! ### All numbers -/

theorem number?_print (number : Number) {rest : List Char} (hrest : EndsNumber rest) :
    number? (number.print ++ rest) = some (number, rest) := by
  cases number with
  | natural value =>
    have hread := number?_numeral (.ofNat value.toNat) false hrest
    rw [Numeral.text_ofNat] at hread
    refine hread.trans ?_
    simp only [Numeral.ofNat, Number.ofParts?, Nat.ofDigitChars_ten_toDigits, ofInteger?_natural, Option.map_some]
  | negative value hnegative =>
    have hread := number?_numeral (.ofNat value.toInt.natAbs) true hrest
    rw [Numeral.text_ofNat] at hread
    refine hread.trans ?_
    simp only [Numeral.ofNat, Number.ofParts?, Nat.ofDigitChars_ten_toDigits, ofInteger?_negative hnegative,
      Option.map_some]
  | float value hfinite =>
    obtain ⟨numeral, htext, hform, hcode⟩ := exists_numeral_floatText value
    rw [Number.print, htext, number?_numeral numeral value.isNegative hrest, ofParts?_eq_float hfinite hform hcode,
      Option.map_some]

end Pluck.Json
