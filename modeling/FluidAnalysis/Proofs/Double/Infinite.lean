import Mathlib
import FluidAnalysis.Numeric.Summary
import FluidAnalysis.Proofs.Double.Scientific

/-!
# Infinite and undefined doubles

A sum that has become infinite stays so, or becomes undefined, and an undefined sum stays
undefined: no later value brings it back to a finite number (`LostTo`). Two infinities of opposite
signs cancel, and what is left is undefined. A sum of numbers is undefined for no other reason
(`isNaN_add_iff`).

* `LostTo.add_left`, `LostTo.add_right` — sums that are lost
* `LostTo.cancel` — infinities that cancel
* `isNaN_div_count` — dividing by a count changes nothing about it
-/

namespace FluidAnalysis.Double

open Float.Model
open UnpackedFloat (Sign)
open Decimal (IsNearestEven)

/-! ## Packing -/

/-- A number is packed as a number, however large it is. -/
theorem unpack_pack_finite_ne (s : Sign) {m : ℕ} (e : ℤ) (hm : 0 < m) :
    (pack (.finite s m e hm)).unpack ≠ .notANumber := by
  unfold Float.Model.unpack Float.Model.pack UnpackedFloat.pack
  simp only
  split_ifs with hlarge hnormal
  · intro h
    cases (unpack_pack_infinity s).symm.trans h
  · unfold UnpackedFloat.unpack
    simp only [UnpackedFloat.unpackExponent_packComponents,
      UnpackedFloat.unpackMantissa_packComponents]
    rw [if_neg ?_]
    · split_ifs <;> simp
    · -- the exponent of ones is the one that is not used
      intro h
      have htop := congrArg BitVec.toNat h
      rw [BitVec.toNat_ofNat, Nat.mod_eq_of_lt (by omega)] at htop
      have hones : (-1#11).toNat = 2047 := rfl
      omega
  · unfold UnpackedFloat.unpack
    simp only [UnpackedFloat.unpackExponent_packComponents,
      UnpackedFloat.unpackMantissa_packComponents]
    rw [if_neg (by decide), if_pos trivial]
    split <;> simp

theorem unpack_pack_eq_notANumber_iff {u : UnpackedFloat} :
    (pack u).unpack = .notANumber ↔ u = .notANumber := by
  cases u with
  | notANumber => exact ⟨fun _ => rfl, fun _ => rfl⟩
  | infinity s => simp [unpack_pack_infinity]
  | zero s => simp [unpack_pack_zero]
  | finite s m e hm => simp [unpack_pack_finite_ne s e hm]

theorem isNaN_iff {x : Float} : x.isNaN = true ↔ parts x = .notANumber := by
  show (parts x).isNaN = true ↔ _
  cases parts x <;> simp [UnpackedFloat.isNaN]

/-! ## Sums before they are packed -/

section Unpacked

variable {s : Sign} {u v : UnpackedFloat}

theorem roundWithAccuracy_ne (s : Sign) (m : ℕ) (e : ℤ) (accuracy : UnpackedFloat.Accuracy) :
    UnpackedFloat.roundWithAccuracy .binary64 s m e accuracy ≠ .notANumber := by
  unfold UnpackedFloat.roundWithAccuracy
  simp only
  split <;> simp

theorem normalize_ne (m e : ℤ) (s : Sign) :
    UnpackedFloat.normalize .binary64 m e s ≠ .notANumber := by
  unfold UnpackedFloat.normalize
  split
  · exact roundWithAccuracy_ne _ _ _ _
  · simp
  · exact roundWithAccuracy_ne _ _ _ _

theorem apply_neg (s : Sign) (k : ℤ) : (-s).apply k = -s.apply k := by
  cases s
  · exact (neg_neg k).symm
  · rfl

/-- A difference is the sum with the opposite. -/
theorem unpacked_sub_eq (u v : UnpackedFloat) :
    UnpackedFloat.sub .binary64 u v = UnpackedFloat.add .binary64 u v.neg := by
  cases u with
  | finite s m e hm =>
    cases v with
    | finite t n f hn =>
      simp only [UnpackedFloat.sub, UnpackedFloat.add, UnpackedFloat.neg, apply_neg,
        sub_eq_add_neg]
    | _ => rfl
  | _ => cases v <;> rfl

/-- The infinity of one sign, or undefined. -/
def Lost (s : Sign) (u : UnpackedFloat) : Prop :=
  u = .infinity s ∨ u = .notANumber

theorem Lost.unpack_pack (h : Lost s u) : Lost s (pack u).unpack := by
  rcases h with rfl | rfl
  · exact .inl (unpack_pack_infinity s)
  · exact .inr unpack_pack_notANumber

theorem Lost.neg (h : Lost s u) : Lost (-s) u.neg := by
  rcases h with rfl | rfl
  · exact .inl rfl
  · exact .inr rfl

theorem Lost.add_left (h : Lost s u) (v : UnpackedFloat) :
    Lost s (UnpackedFloat.add .binary64 u v) := by
  rcases h with rfl | rfl
  · cases v with
    | infinity t =>
      show (if s == t then _ else _) = _ ∨ (if s == t then _ else _) = _
      split_ifs <;> simp
    | notANumber => exact .inr rfl
    | _ => exact .inl rfl
  · exact .inr rfl

theorem Lost.add_right (u : UnpackedFloat) (h : Lost s v) :
    Lost s (UnpackedFloat.add .binary64 u v) := by
  rcases h with rfl | rfl
  · cases u with
    | infinity t =>
      show (if t == s then _ else _) = _ ∨ (if t == s then _ else _) = _
      split_ifs with hsame
      · rw [eq_of_beq hsame]
        exact .inl rfl
      · exact .inr rfl
    | notANumber => exact .inr rfl
    | _ => exact .inl rfl
  · cases u <;> exact .inr rfl

/-- A sum is undefined if one of the terms is, or if they are infinities that cancel. -/
theorem unpacked_add_eq_notANumber_iff :
    UnpackedFloat.add .binary64 u v = .notANumber ↔
      u = .notANumber ∨ v = .notANumber ∨ ∃ s, u = .infinity s ∧ v = .infinity (-s) := by
  rcases u with (_ | _) | _ | _ | _ <;> rcases v with (_ | _) | _ | _ | _ <;>
  simp [UnpackedFloat.add, normalize_ne]
  case zero.zero => split <;> simp
  all_goals rfl

end Unpacked

/-! ## Sums that are lost -/

section Lost

variable {s : Sign} {x y : Float}

/-- A double from which no finite sum comes back. -/
def LostTo (s : Sign) (x : Float) : Prop :=
  Lost s (parts x)

/-- Two infinities of opposite signs. -/
def Cancel (x y : Float) : Prop :=
  ∃ s, parts x = .infinity s ∧ parts y = .infinity (-s)

theorem parts_add (x y : Float) :
    parts (x + y) = (pack (UnpackedFloat.add .binary64 (parts x) (parts y))).unpack :=
  rfl

theorem parts_sub (x y : Float) :
    parts (x - y) = (pack (UnpackedFloat.add .binary64 (parts x) (parts y).neg)).unpack := by
  rw [← unpacked_sub_eq]
  rfl

theorem parts_div (x y : Float) :
    parts (x / y) = (pack (UnpackedFloat.div .binary64 (parts x) (parts y))).unpack :=
  rfl

theorem isFinite_eq_false_iff : x.isFinite = false ↔ ∃ s, LostTo s x := by
  show (parts x).isFinite = false ↔ ∃ s, parts x = .infinity s ∨ parts x = .notANumber
  cases parts x with
  | notANumber => exact ⟨fun _ => ⟨.positive, .inr rfl⟩, fun _ => rfl⟩
  | _ => simp [UnpackedFloat.isFinite]

theorem not_lostTo_of_isFinite (h : x.isFinite = true) : ¬ LostTo s x := by
  intro hlost
  have hnot : x.isFinite = false := isFinite_eq_false_iff.mpr ⟨s, hlost⟩
  rw [h] at hnot
  cases hnot

theorem not_isNaN_of_isFinite (h : x.isFinite = true) : ¬ x.isNaN = true := by
  intro hnan
  exact not_lostTo_of_isFinite (s := .positive) h (.inr (isNaN_iff.mp hnan))

theorem not_cancel_of_isFinite (h : y.isFinite = true) : ¬ Cancel x y := by
  rintro ⟨s, -, hinfinite⟩
  exact not_lostTo_of_isFinite h (.inl hinfinite)

theorem LostTo.add_left (h : LostTo s x) (y : Float) : LostTo s (x + y) := by
  rw [LostTo, parts_add]
  exact (Lost.add_left h _).unpack_pack

theorem LostTo.add_right (x : Float) (h : LostTo s y) : LostTo s (x + y) := by
  rw [LostTo, parts_add]
  exact (Lost.add_right _ h).unpack_pack

theorem LostTo.sub_left (h : LostTo s x) (y : Float) : LostTo s (x - y) := by
  rw [LostTo, parts_sub]
  exact (Lost.add_left h _).unpack_pack

/-- What is taken away leaves the opposite sign. -/
theorem LostTo.sub_right (x : Float) (h : LostTo s y) : LostTo (-s) (x - y) := by
  rw [LostTo, parts_sub]
  exact (Lost.add_right _ (Lost.neg h)).unpack_pack

/-! ## Undefined results -/

/-- **A sum is undefined if one of the terms is, or if they are infinities that cancel.** -/
theorem isNaN_add_iff :
    (x + y).isNaN = true ↔ x.isNaN = true ∨ y.isNaN = true ∨ Cancel x y := by
  rw [isNaN_iff, isNaN_iff, isNaN_iff, parts_add, unpack_pack_eq_notANumber_iff,
    unpacked_add_eq_notANumber_iff, Cancel]

/-- A difference is undefined if one of the terms is, or if they are the same infinity. -/
theorem isNaN_sub_iff :
    (x - y).isNaN = true ↔
      x.isNaN = true ∨ y.isNaN = true ∨ ∃ s, parts x = .infinity s ∧ parts y = .infinity s := by
  have hnan : (parts y).neg = .notANumber ↔ parts y = .notANumber := by
    cases parts y <;> simp [UnpackedFloat.neg]
  have hinfinite : ∀ s, (parts y).neg = .infinity (-s) ↔ parts y = .infinity s := by
    intro s
    rcases parts y with (_ | _) | _ | _ | _ <;> cases s <;> simp [UnpackedFloat.neg]
  rw [isNaN_iff, isNaN_iff, isNaN_iff, parts_sub, unpack_pack_eq_notANumber_iff,
    unpacked_add_eq_notANumber_iff]
  simp only [hnan, hinfinite]

/-- A difference of finite numbers may be infinite, but it is a number. -/
theorem not_isNaN_sub (hx : x.isFinite = true) (hy : y.isFinite = true) :
    ¬ (x - y).isNaN = true := by
  rw [isNaN_sub_iff]
  rintro (hnan | hnan | ⟨s, hinfinite, -⟩)
  · exact not_isNaN_of_isFinite hx hnan
  · exact not_isNaN_of_isFinite hy hnan
  · exact not_lostTo_of_isFinite hx (.inl hinfinite)

/-- What is lost to both signs is undefined. -/
theorem isNaN_iff_lostTo : x.isNaN = true ↔ ∀ s, LostTo s x := by
  rw [isNaN_iff]
  constructor
  · exact fun hnan s => .inr hnan
  · intro h
    rcases h .positive with hpositive | hnan
    · rcases h .negative with hnegative | hnan
      · cases hpositive.symm.trans hnegative
      · exact hnan
    · exact hnan

/-- Dividing by a finite number other than zero leaves undefined what is undefined, and no more. -/
theorem isNaN_div_iff {t : Sign} {m : ℕ} {e : ℤ} {hm : 0 < m} (hy : parts y = .finite t m e hm) :
    (x / y).isNaN = true ↔ x.isNaN = true := by
  rw [isNaN_iff, isNaN_iff, parts_div, unpack_pack_eq_notANumber_iff, hy]
  rcases parts x with _ | _ | _ | _ <;> simp [UnpackedFloat.div, roundWithAccuracy_ne]

theorem LostTo.cancel (hx : LostTo s x) (hy : LostTo (-s) y) : (x + y).isNaN = true := by
  rw [isNaN_add_iff, isNaN_iff, isNaN_iff]
  rcases hx with hx | hx
  · rcases hy with hy | hy
    · exact .inr (.inr ⟨s, hx, hy⟩)
    · exact .inr (.inl hy)
  · exact .inl hx

/-! ## Sums of a list -/

theorem lostTo_foldl {values : List Float} {start : Float}
    (h : LostTo s start ∨ ∃ v ∈ values, LostTo s v) :
    LostTo s (values.foldl (· + ·) start) := by
  induction values generalizing start with
  | nil => simpa using h
  | cons first rest ih =>
    apply ih
    rcases h with h | ⟨v, hv, h⟩
    · exact .inl (h.add_left first)
    · rcases List.mem_cons.mp hv with rfl | hv
      · exact .inl (h.add_right start)
      · exact .inr ⟨v, hv, h⟩

/-- One lost value is enough for the sum to be lost. -/
theorem lostTo_sum {values : List Float} {v : Float} (hv : v ∈ values) (h : LostTo s v) :
    LostTo s (Numeric.sum values) :=
  lostTo_foldl (.inr ⟨v, hv, h⟩)

theorem not_isNaN_foldl {values : List Float} {start : Float} (hstart : ¬ start.isNaN = true)
    (h : ∀ v ∈ values, v.isFinite = true) : ¬ (values.foldl (· + ·) start).isNaN = true := by
  induction values generalizing start with
  | nil => exact hstart
  | cons first rest ih =>
    have hfirst : first.isFinite = true := h first List.mem_cons_self
    refine ih ?_ fun v hv => h v (List.mem_cons_of_mem _ hv)
    rw [isNaN_add_iff]
    rintro (hnan | hnan | hcancel)
    · exact hstart hnan
    · exact not_isNaN_of_isFinite hfirst hnan
    · exact not_cancel_of_isFinite hfirst hcancel

/-- A sum of finite numbers may be infinite, but it is a number. -/
theorem not_isNaN_sum {values : List Float} (h : ∀ v ∈ values, v.isFinite = true) :
    ¬ (Numeric.sum values).isNaN = true :=
  not_isNaN_foldl (by decide) h

end Lost

/-! ## Counts -/

section Count

theorem exists_isNearestEven {b : ℚ} (h : 0 ≤ b) : ∃ n, IsNearestEven b n := by
  have hnum : ((b.num.toNat : ℕ) : ℚ) = b.num := by
    exact_mod_cast Int.toNat_of_nonneg (Rat.num_nonneg.mpr h)
  have hround := Decimal.roundHalfEven_isNearestEven b.num.toNat b.pos
  rw [hnum, Rat.num_div_den] at hround
  exact ⟨_, hround⟩

/-- Half of the smallest double above zero. -/
theorem half_smallest : (2 : ℚ) ^ (-1075 : ℤ) = 1 / 2 * 2 ^ (-1074 : ℤ) := by
  rw [one_div, mul_comm]
  exact zpow_sub_one₀ (two_ne_zero (α := ℚ)) (-1074)

/-- A number that is nearer to the smallest double than to zero is rounded to a double, if the
exponent may be as large as needed. -/
theorem exists_roundsTo {a : ℚ} (h : 2 ^ (-1075 : ℤ) < a) : ∃ m e, RoundsTo a m e := by
  have ha : 0 < a := (zpow_pos (by norm_num) _).trans h
  have hpow : (0 : ℚ) < 2 ^ quantum a := zpow_pos (by norm_num) _
  have hplace : -1074 ≤ quantum a := le_max_right _ _
  obtain ⟨n, hn⟩ := exists_isNearestEven (div_pos ha hpow).le
  have hpos : 0 < n := by
    by_cases hq : quantum a = -1074
    · -- at the last place of all the number is more than half a unit
      by_contra hzero
      obtain rfl : n = 0 := by omega
      have hhalf : 1 / 2 < a / 2 ^ quantum a := by
        rw [hq, lt_div_iff₀ (zpow_pos (by norm_num) _), ← half_smallest]
        exact h
      have hnear := (abs_le.mp hn.near).2
      rw [Nat.cast_zero, sub_zero] at hnear
      exact absurd hnear (not_le.mpr hhalf)
    · exact (Nat.two_pow_pos 52).trans_le (hn.le_of_le (pow_le_scaled ha hq))
  rcases (hn.le_of_ge (scaled_le_pow a)).lt_or_eq with hlt | rfl
  · have hbits : n.log2 ≤ 52 := Nat.le_of_lt_succ ((Nat.log2_lt hpos.ne').mpr hlt)
    have hc : Canonical n (quantum a) := by
      refine canonical_iff.mpr ⟨hbits, hplace, ?_⟩
      by_cases hq : quantum a = -1074
      · exact .inr hq
      · exact .inl (le_antisymm hbits
          ((Nat.le_log2 hpos.ne').mpr (hn.le_of_le (pow_le_scaled ha hq))))
    exact ⟨n, quantum a, .of_quantum hpos hc rfl hn⟩
  · -- the rounding carried into one more digit
    have hc : Canonical (2 ^ 52) (quantum a + 1) := by
      rw [canonical_iff, Nat.log2_two_pow]
      omega
    refine ⟨2 ^ 52, quantum a + 1, Nat.two_pow_pos 52, hc, 2 ^ 53, hn, ?_⟩
    rw [zpow_add_one₀ (by norm_num)]
    push_cast
    ring

/-- A count is a double above zero, infinite if it is too large for any other. -/
theorem exists_parts_count {n : ℕ} (hpos : 0 < n) :
    ∃ m e h, RoundsTo n m e ∧
      parts (n : Float) = if 971 < e then .infinity .positive else .finite .positive m e h := by
  have hone : (1 : ℚ) ≤ n := by exact_mod_cast hpos
  obtain ⟨m, e, hround⟩ := exists_roundsTo
    ((zpow_lt_one_of_neg₀ one_lt_two (by norm_num)).trans_le hone)
  have hround' : RoundsTo (n * 10 ^ (0 : ℤ)) m e := by simpa using hround
  refine ⟨m, e, hround.pos, hround, ?_⟩
  have hfloat : (n : Float) = .ofModel (pack (.finite .positive m e hround.pos)) :=
    ofScientific_eq hpos (by norm_num) (by omega) hround'
  rw [hfloat]
  exact unpack_pack_finite _ _ hround.canonical

/-- A count that fits in a machine word is a finite double. -/
theorem parts_count {n : ℕ} (hpos : 0 < n) (hn : n < 2 ^ 64) :
    ∃ m e h, parts (n : Float) = .finite .positive m e h := by
  obtain ⟨m, e, hm, hround, hparts⟩ := exists_parts_count hpos
  have hsmall : e ≤ 971 := by
    have hone : (1 : ℚ) ≤ n := by exact_mod_cast hpos
    obtain ⟨hvalue, -⟩ := hround.bounds (one_pos.trans_le hone)
    have hm : (1 : ℚ) ≤ m := by exact_mod_cast hround.pos
    have hword : (n : ℚ) < 2 ^ 64 := by exact_mod_cast hn
    have hpow : (0 : ℚ) < 2 ^ e := zpow_pos (by norm_num) _
    have hlt : (2 : ℚ) ^ e < 2 ^ (65 : ℤ) := by
      norm_num
      nlinarith
    exact ((zpow_lt_zpow_iff_right₀ one_lt_two).mp hlt).le.trans (by norm_num)
  rw [if_neg (by omega)] at hparts
  exact ⟨m, e, hm, hparts⟩

/-- **Dividing by a count changes nothing about what is undefined.** -/
theorem isNaN_div_count {x : Float} {n : ℕ} (hpos : 0 < n) (hn : n < 2 ^ 64) :
    (x / (n : Float)).isNaN = true ↔ x.isNaN = true := by
  obtain ⟨m, e, hm, hparts⟩ := parts_count hpos hn
  exact isNaN_div_iff hparts

/-- What is lost stays lost when it is divided by a count. -/
theorem LostTo.div_count {s : Sign} {x : Float} {n : ℕ} (h : LostTo s x) (hpos : 0 < n) :
    LostTo s (x / (n : Float)) := by
  obtain ⟨m, e, hm, -, hparts⟩ := exists_parts_count hpos
  rw [LostTo, parts_div, hparts]
  apply Lost.unpack_pack
  rcases h with h | h
  · rw [h]
    split_ifs
    · exact .inr rfl
    · cases s <;> exact .inl rfl
  · rw [h]
    split_ifs <;> exact .inr rfl

end Count

end FluidAnalysis.Double
