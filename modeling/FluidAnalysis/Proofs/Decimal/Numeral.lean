import FluidAnalysis.Decimal.General
import FluidAnalysis.Decimal.Reader
import Mathlib.Data.List.DropRight
import Mathlib.Tactic.Ring

/-!
# Numerals and their values

Every numeral that is written has the form `pointed whole fraction`: digits, and a point with more
digits unless there are none. Three things are said of this form, each once.

* the writers produce it (`withPoint_eq_pointed`, `pointAfterFirst_eq_pointed`)
* dropping trailing zeros keeps it (`trimFraction_pointed`)
* the reader takes it apart again (`readExact?_pointed`, `readExact?_scientific`)
-/

namespace FluidAnalysis.Decimal

/-! ## Digit strings -/

/-- Decimal digits only. -/
def AllDigits (text : List Char) : Prop :=
  ∀ c ∈ text, c.isDigit

theorem AllDigits.append {a b : List Char} (ha : AllDigits a) (hb : AllDigits b) :
    AllDigits (a ++ b) := by
  intro c hc
  rcases List.mem_append.mp hc with hc | hc
  · exact ha c hc
  · exact hb c hc

theorem AllDigits.of_subset {a b : List Char} (hb : AllDigits b) (h : a ⊆ b) : AllDigits a :=
  fun c hc => hb c (h hc)

theorem allDigits_zeros (n : ℕ) : AllDigits (List.replicate n '0') := by
  intro c hc
  rw [List.eq_of_mem_replicate hc]
  rfl

theorem allDigits_digits (n : ℕ) : AllDigits (digits n) :=
  fun _ hc => Nat.isDigit_of_mem_toDigits (by decide) (by decide) hc

/-- A character that is no digit is not among digits. -/
theorem AllDigits.not_mem {text : List Char} (h : AllDigits text) {c : Char}
    (hc : c.isDigit = false) : c ∉ text := by
  intro hmem
  rw [h c hmem] at hc
  cases hc

theorem digitsValue_eq_ofDigitChars (ds : List Char) :
    digitsValue ds = Nat.ofDigitChars 10 ds 0 := rfl

@[simp] theorem digitsValue_digits (n : ℕ) : digitsValue (digits n) = n :=
  Nat.ofDigitChars_ten_toDigits

theorem digitsValue_append (a b : List Char) :
    digitsValue (a ++ b) = digitsValue a * 10 ^ b.length + digitsValue b := by
  simp only [digitsValue_eq_ofDigitChars]
  rw [Nat.ofDigitChars_append, Nat.ofDigitChars_eq_ofDigitChars_zero, Nat.mul_comm]

@[simp] theorem digitsValue_zeros (n : ℕ) : digitsValue (List.replicate n '0') = 0 := by
  rw [digitsValue_eq_ofDigitChars, Nat.ofDigitChars_replicate_zero, Nat.mul_zero]

theorem digitsValue_zeros_append (n : ℕ) (ds : List Char) :
    digitsValue (List.replicate n '0' ++ ds) = digitsValue ds := by
  rw [digitsValue_append, digitsValue_zeros, Nat.zero_mul, Nat.zero_add]

/-- The numeral of a positive number does not start with zero. -/
theorem digits_eq_cons {n : ℕ} (h : 0 < n) :
    ∃ first rest, digits n = first :: rest ∧ first ≠ '0' := by
  induction n using Nat.strongRecOn with
  | _ n ih =>
    by_cases hlt : n < 10
    · refine ⟨n.digitChar, [], Nat.toDigits_of_lt_base hlt, ?_⟩
      have hn := Nat.toNat_digitChar_of_lt_ten hlt
      intro hzero
      rw [hzero] at hn
      have : (48 : ℕ) = 48 + n := hn
      omega
    · obtain ⟨first, rest, hdigits, hfirst⟩ := ih (n / 10) (by omega) (by omega)
      refine ⟨first, rest ++ [(n % 10).digitChar], ?_, hfirst⟩
      rw [digits, Nat.toDigits_of_base_le (by decide) (by omega)]
      rw [digits] at hdigits
      rw [hdigits, List.cons_append]

/-! ## Numerals with a point -/

/-- Digits, and a point with more digits unless there are none. -/
def pointed (whole fraction : List Char) : List Char :=
  if fraction = [] then whole else whole ++ '.' :: fraction

@[simp] theorem pointed_nil (whole : List Char) : pointed whole [] = whole :=
  if_pos rfl

theorem pointed_of_ne {whole fraction : List Char} (h : fraction ≠ []) :
    pointed whole fraction = whole ++ '.' :: fraction :=
  if_neg h

theorem mem_pointed {whole fraction : List Char} {c : Char} (h : c ∈ pointed whole fraction) :
    c ∈ whole ∨ c = '.' ∨ c ∈ fraction := by
  unfold pointed at h
  split at h
  · exact Or.inl h
  · simpa using h

theorem filter_isDigit_pointed {whole fraction : List Char} (hw : AllDigits whole)
    (hf : AllDigits fraction) : (pointed whole fraction).filter Char.isDigit = whole ++ fraction := by
  have hwhole : whole.filter Char.isDigit = whole := List.filter_eq_self.mpr hw
  have hfraction : fraction.filter Char.isDigit = fraction := List.filter_eq_self.mpr hf
  unfold pointed
  split
  · next h => rw [h, hwhole, List.append_nil]
  · rw [List.filter_append, List.filter_cons_of_neg (by decide), hwhole, hfraction]

/-- The digits of a number with the zeros that a place before the point needs. -/
def padded (n places : ℕ) : List Char :=
  List.replicate (places + 1 - (digits n).length) '0' ++ digits n

theorem places_lt_padded (n places : ℕ) : places < (padded n places).length := by
  rw [padded, List.length_append, List.length_replicate]
  omega

theorem allDigits_padded (n places : ℕ) : AllDigits (padded n places) :=
  (allDigits_zeros _).append (allDigits_digits n)

/-- The digits before the point. -/
def wholePart (n places : ℕ) : List Char :=
  (padded n places).take ((padded n places).length - places)

/-- The digits after the point. -/
def fractionPart (n places : ℕ) : List Char :=
  (padded n places).drop ((padded n places).length - places)

theorem allDigits_wholePart (n places : ℕ) : AllDigits (wholePart n places) :=
  (allDigits_padded n places).of_subset (List.take_subset _ _)

theorem allDigits_fractionPart (n places : ℕ) : AllDigits (fractionPart n places) :=
  (allDigits_padded n places).of_subset (List.drop_subset _ _)

@[simp] theorem wholePart_append_fractionPart (n places : ℕ) :
    wholePart n places ++ fractionPart n places = padded n places :=
  List.take_append_drop _ _

@[simp] theorem length_fractionPart (n places : ℕ) : (fractionPart n places).length = places := by
  have := places_lt_padded n places
  rw [fractionPart, List.length_drop]
  omega

theorem withPoint_eq_pointed (n places : ℕ) :
    withPoint n places = pointed (wholePart n places) (fractionPart n places) := by
  show (if places == 0 then padded n places else _) = _
  split
  · next h =>
    rw [beq_iff_eq] at h
    have hnil : fractionPart n places = [] := by
      rw [← List.length_eq_zero_iff, length_fractionPart, h]
    rw [hnil, pointed_nil, ← wholePart_append_fractionPart, hnil, List.append_nil]
  · next h =>
    rw [beq_iff_eq] at h
    have hne : fractionPart n places ≠ [] := by
      intro hnil
      exact h (by rw [← length_fractionPart n places, hnil, List.length_nil])
    exact (pointed_of_ne hne).symm

/-- Only a lone zero may start the digits before the point. -/
theorem wholePart_cases {n : ℕ} (places : ℕ) (h : 0 < n) :
    wholePart n places = ['0'] ∨ ∃ first rest, wholePart n places = first :: rest ∧ first ≠ '0' := by
  obtain ⟨first, rest, hdigits, hfirst⟩ := digits_eq_cons h
  by_cases hlen : (digits n).length ≤ places
  · left
    obtain ⟨k, hk⟩ : ∃ k, places + 1 - (digits n).length = k + 1 :=
      ⟨places - (digits n).length, by omega⟩
    have hone : (padded n places).length - places = 1 := by
      rw [padded, List.length_append, List.length_replicate]
      omega
    rw [wholePart, hone, padded, hk, List.replicate_succ, List.cons_append, List.take_succ_cons,
      List.take_zero]
  · right
    have hpad : padded n places = first :: rest := by
      rw [padded, show places + 1 - (digits n).length = 0 by omega, hdigits]
      rfl
    obtain ⟨k, hk⟩ : ∃ k, (padded n places).length - places = k + 1 :=
      ⟨(padded n places).length - places - 1, by have := places_lt_padded n places; omega⟩
    exact ⟨first, rest.take k, by rw [wholePart, hk, hpad, List.take_succ_cons], hfirst⟩

theorem pointAfterFirst_eq_pointed {n : ℕ} {first : Char} {rest : List Char}
    (h : digits n = first :: rest) : pointAfterFirst n = pointed [first] rest := by
  unfold pointAfterFirst
  rw [h]
  cases rest with
  | nil => rfl
  | cons second rest => rfl

/-! ## Dropping trailing zeros -/

/-- A fraction without the zeros at its end. -/
def trimmed (fraction : List Char) : List Char :=
  fraction.rdropWhile (· == '0')

theorem trimmed_append_zeros (fraction : List Char) :
    ∃ k, fraction = trimmed fraction ++ List.replicate k '0' := by
  refine ⟨(fraction.rtakeWhile (· == '0')).length, ?_⟩
  have hzeros : fraction.rtakeWhile (· == '0')
      = List.replicate (fraction.rtakeWhile (· == '0')).length '0' :=
    List.eq_replicate_of_mem fun c hc => by simpa using List.mem_rtakeWhile_imp hc
  rw [← hzeros]
  exact (List.rdropWhile_append_rtakeWhile).symm

theorem trimmed_getLast? (fraction : List Char) : (trimmed fraction).getLast? ≠ some '0' := by
  intro h
  have hne : trimmed fraction ≠ [] := by
    intro hnil
    rw [hnil] at h
    cases h
  have hlast := List.rdropWhile_last_not (· == '0') fraction hne
  rw [List.getLast?_eq_some_getLast hne, Option.some.injEq] at h
  exact hlast (by rw [beq_iff_eq]; exact h)

theorem AllDigits.trimmed {fraction : List Char} (h : AllDigits fraction) :
    AllDigits (trimmed fraction) :=
  h.of_subset (List.rdropWhile_prefix _ _).subset

/-- **Only the zeros at the end of a fraction are dropped, and the point when they were all.** The
zeros before the point stay. -/
theorem trimFraction_pointed {whole fraction : List Char} (hw : AllDigits whole)
    (hf : AllDigits fraction) :
    trimFraction (pointed whole fraction) = pointed whole (trimmed fraction) := by
  have hpoint : ∀ {text : List Char}, AllDigits text →
      text.reverse.dropWhile (· == '.') = text.reverse := by
    intro text htext
    rw [List.dropWhile_eq_self_iff]
    intro hpos hc
    have hmem := htext _ (List.mem_reverse.mp (List.getElem_mem hpos))
    rw [beq_iff_eq.mp hc] at hmem
    cases hmem
  by_cases hnil : fraction = []
  · have hno : whole.contains '.' = false := by
      simpa using hw.not_mem (c := '.') rfl
    rw [hnil, pointed_nil, trimFraction, hno]
    rfl
  · have hyes : (whole ++ '.' :: fraction).contains '.' = true := by simp
    rw [pointed_of_ne hnil, trimFraction, hyes, if_pos rfl, List.reverse_append,
      List.reverse_cons, List.append_assoc, List.singleton_append, List.dropWhile_append]
    split
    · -- the fraction is all zeros, and so the point goes with it
      next hzero =>
      have htrim : trimmed fraction = [] := by
        rw [trimmed, List.rdropWhile, List.isEmpty_iff.mp hzero, List.reverse_nil]
      rw [htrim, pointed_nil, List.dropWhile_cons_of_neg (by decide),
        List.dropWhile_cons_of_pos (by decide), hpoint hw, List.reverse_reverse]
    · next hzero =>
      have hrev : fraction.reverse.dropWhile (· == '0') = (trimmed fraction).reverse := by
        rw [trimmed, List.rdropWhile, List.reverse_reverse]
      have hne : trimmed fraction ≠ [] := by
        intro h
        rw [hrev, h] at hzero
        exact hzero rfl
      rw [hrev, pointed_of_ne hne, List.dropWhile_append, hpoint hf.trimmed,
        if_neg (by simpa using hne)]
      simp

/-! ## Reading -/

theorem takeDigits_append {ds rest : List Char} (hds : AllDigits ds)
    (hrest : ∀ c ∈ rest.head?, c.isDigit = false) : takeDigits (ds ++ rest) = (ds, rest) := by
  rw [takeDigits, List.takeWhile_append_of_pos hds, List.dropWhile_append_of_pos hds]
  cases rest with
  | nil => simp
  | cons c rest =>
    have hc := hrest c rfl
    simp [hc]

/-- What follows the digits of a number is nothing, or an exponent. -/
def readTail? (coefficient places : Nat) : List Char → Option Exact
  | [] => some ⟨coefficient, -(places : Int)⟩
  | c :: rest =>
    if c == 'e' || c == 'E' then (readExponent? rest).map fun e => ⟨coefficient, e - (places : Int)⟩
    else none

/-- The reader takes a numeral off, and leaves what follows it. -/
theorem readExact?_append {whole fraction rest : List Char} (hne : whole ≠ [])
    (hw : AllDigits whole) (hf : AllDigits fraction)
    (hrest : ∀ c ∈ rest.head?, c.isDigit = false ∧ c ≠ '.') :
    readExact? (pointed whole fraction ++ rest)
      = readTail? (digitsValue (whole ++ fraction)) fraction.length rest := by
  have hdigits : ∀ c ∈ rest.head?, c.isDigit = false := fun c hc => (hrest c hc).1
  have hempty : (whole.isEmpty && fraction.isEmpty) = false := by
    cases whole with
    | nil => exact absurd rfl hne
    | cons c whole => rfl
  unfold readExact?
  by_cases hnil : fraction = []
  · rw [hnil, pointed_nil, takeDigits_append hw hdigits]
    rw [hnil] at hempty
    cases rest with
    | nil => simp [hne, readTail?]
    | cons c rest =>
      have hc := (hrest c rfl).2
      simp [hne, hc, readTail?]
  · have htext : pointed whole fraction ++ rest = whole ++ '.' :: (fraction ++ rest) := by
      rw [pointed_of_ne hnil, List.append_assoc, List.cons_append]
    rw [htext, takeDigits_append hw (by simp)]
    simp only [takeDigits_append hf hdigits, hempty]
    cases rest <;> rfl

theorem readExact?_pointed {whole fraction : List Char} (hne : whole ≠ [])
    (hw : AllDigits whole) (hf : AllDigits fraction) :
    readExact? (pointed whole fraction)
      = some ⟨digitsValue (whole ++ fraction), -(fraction.length : Int)⟩ := by
  have h : readExact? (pointed whole fraction ++ []) = _ := readExact?_append hne hw hf (by simp)
  rwa [List.append_nil] at h

/-- The exponent as it is written has at least two digits. -/
def exponentDigits (x : Int) : List Char :=
  List.replicate (2 - (digits x.natAbs).length) '0' ++ digits x.natAbs

theorem exponentText_eq (x : Int) :
    exponentText x = (if x < 0 then '-' else '+') :: exponentDigits x := by
  rw [exponentText, paddedNat, String.toList_ofList]
  rfl

theorem allDigits_exponentDigits (x : Int) : AllDigits (exponentDigits x) :=
  (allDigits_zeros _).append (allDigits_digits _)

@[simp] theorem digitsValue_exponentDigits (x : Int) :
    digitsValue (exponentDigits x) = x.natAbs := by
  rw [exponentDigits, digitsValue_zeros_append, digitsValue_digits]

theorem two_le_length_exponentDigits (x : Int) : 2 ≤ (exponentDigits x).length := by
  rw [exponentDigits, List.length_append, List.length_replicate]
  omega

/-- **An exponent that was written is read back.** -/
theorem readExponent?_exponentText (x : Int) : readExponent? (exponentText x) = some x := by
  have hne : exponentDigits x ≠ [] := by
    intro hnil
    have hlen := two_le_length_exponentDigits x
    rw [hnil, List.length_nil] at hlen
    omega
  have htake : takeDigits (exponentDigits x) = (exponentDigits x, []) := by
    have h : takeDigits (exponentDigits x ++ []) = _ :=
      takeDigits_append (allDigits_exponentDigits x) (by simp)
    rwa [List.append_nil] at h
  have hempty : (exponentDigits x).isEmpty = false := by simpa using hne
  rw [exponentText_eq, readExponent?]
  by_cases hx : x < 0
  · rw [if_pos hx]
    simp only [takeSign, htake, hempty, digitsValue_exponentDigits]
    show some (-(x.natAbs : Int)) = some x
    rw [Int.ofNat_natAbs_of_nonpos hx.le, neg_neg]
  · rw [if_neg hx]
    simp only [takeSign, htake, hempty, digitsValue_exponentDigits]
    show some (x.natAbs : Int) = some x
    rw [Int.natAbs_of_nonneg (not_lt.mp hx)]

theorem readExact?_scientific {whole fraction : List Char} (hne : whole ≠ [])
    (hw : AllDigits whole) (hf : AllDigits fraction) (x : Int) :
    readExact? (pointed whole fraction ++ 'e' :: exponentText x)
      = some ⟨digitsValue (whole ++ fraction), x - (fraction.length : Int)⟩ := by
  rw [readExact?_append hne hw hf (by simp)]
  simp [readTail?, readExponent?_exponentText]

end FluidAnalysis.Decimal
