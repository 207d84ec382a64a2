import FluidAnalysis.Proofs.Double.Order

/-!
# Multiplying a double by ten

The size of a finite number is the position of its leading binary digit. Rounding never lowers it,
so each multiplication by ten raises it by at least three, and since the sizes of doubles are
bounded, a finite number that is not zero becomes infinite in a bounded number of steps. After these
steps multiplying by ten changes nothing any more.

* `parts_mul_ten_of_finite` — one step
* `parts_raised_of_finite` — the whole run from a finite number
* `raised_settled` — nothing changes after the steps that the widest run takes
-/

namespace FluidAnalysis

/-- A scalar after `k` multiplications by ten. -/
def Scalar.raised {α : Type} [Scalar α] (x : α) (k : Nat) : α :=
  (fun y => y * 10.0)^[k] x

namespace Double

open Float.Model
open Scalar (raised)
open UnpackedFloat (Sign Accuracy ExtendedMantissa roundWithAccuracy shiftToTargetExponent)

/-! ## Rounding -/

theorem mantissa_shiftRight (extended : ExtendedMantissa) (k : Nat) :
    (extended >>> k).mantissa = extended.mantissa / 2 ^ k := by
  induction k with
  | zero => simp [HShiftRight.hShiftRight, Nat.repeat]
  | succ k ih =>
    calc (extended >>> (k + 1)).mantissa = (extended >>> k).mantissa / 2 := rfl
      _ = extended.mantissa / 2 ^ (k + 1) := by rw [ih, Nat.div_div_eq_div_mul, ← pow_succ]

theorem mantissa_ofMantissaAndAccuracy (m : Nat) (accuracy : Accuracy) :
    (ExtendedMantissa.ofMantissaAndAccuracy m accuracy).mantissa = m := by
  rcases accuracy with _ | (_ | _ | _) <;> rfl

theorem le_roundedMantissa (extended : ExtendedMantissa) :
    extended.mantissa ≤ extended.roundedMantissa := by
  rcases extended with ⟨m, _ | _, _ | _⟩ <;>
  simp [ExtendedMantissa.roundedMantissa, ExtendedMantissa.accuracy, Accuracy.roundToNearestEven]

/-- Dropping digits behind the leading one keeps the size. -/
theorem totalExponent_div (m : Nat) (e : Int) {k : Nat} (hk : k ≤ m.log2) :
    totalExponent (m / 2 ^ k) (e + k) = totalExponent m e := by
  have hlog : (m / 2 ^ k).log2 = m.log2 - k := by
    rw [Nat.log2_eq_log_two, Nat.log_div_base_pow, Nat.log2_eq_log_two]
  unfold totalExponent
  omega

theorem targetExponent_eq (size : Int) :
    Format.binary64.targetExponent size = max (size - 53) (-1074) :=
  rfl

/-- The exponent is the one that the format asks for. -/
def Canonical (m : Nat) (e : Int) : Prop :=
  Format.binary64.targetExponent (totalExponent m e) = e

theorem canonical_iff {m : Nat} {e : Int} :
    Canonical m e ↔ m.log2 ≤ 52 ∧ -1074 ≤ e ∧ (m.log2 = 52 ∨ e = -1074) := by
  unfold Canonical
  rw [targetExponent_eq]
  unfold totalExponent
  omega

/-- A shift to the target exponent gives a canonical number of the same size, if the size is one
that a double can have. -/
theorem shiftToTargetExponent_spec {m : Nat} {e : Int} (accuracy : Accuracy) (hm : 0 < m)
    (he : e ≤ Format.binary64.targetExponent (totalExponent m e))
    (hsize : -1074 < totalExponent m e) :
    ∃ extended e', shiftToTargetExponent .binary64 m e accuracy = (extended, e') ∧
      0 < extended.mantissa ∧ totalExponent extended.mantissa e' = totalExponent m e ∧
      e' = Format.binary64.targetExponent (totalExponent m e) := by
  obtain ⟨k, hk⟩ : ∃ k, (Format.binary64.targetExponent (totalExponent m e) - e).toNat = k :=
    ⟨_, rfl⟩
  have hlog : k ≤ m.log2 := by
    rw [targetExponent_eq] at hk
    unfold totalExponent at hk hsize
    omega
  have hmantissa :
      ((ExtendedMantissa.ofMantissaAndAccuracy m accuracy) >>> k).mantissa = m / 2 ^ k := by
    rw [mantissa_shiftRight, mantissa_ofMantissaAndAccuracy]
  refine ⟨_, _, rfl, ?_, ?_, ?_⟩
  · rw [hk, hmantissa]
    exact Nat.div_pos ((Nat.le_log2 hm.ne').1 hlog) (Nat.two_pow_pos k)
  · rw [hk, hmantissa, totalExponent_div m e hlog]
  · rw [hk]
    omega

theorem totalExponent_mono {m n : Nat} (h : m ≤ n) (e : Int) :
    totalExponent m e ≤ totalExponent n e := by
  have hlog : m.log2 ≤ n.log2 := by
    rw [Nat.log2_eq_log_two, Nat.log2_eq_log_two]
    exact Nat.log_mono_right h
  unfold totalExponent
  omega

/-- Rounding gives a canonical number that is no smaller in size. -/
theorem roundWithAccuracy_spec (s : Sign) {m : Nat} {e : Int} (accuracy : Accuracy) (hm : 0 < m)
    (he : e ≤ Format.binary64.targetExponent (totalExponent m e))
    (hsize : -1074 < totalExponent m e) :
    ∃ m' e' h, roundWithAccuracy .binary64 s m e accuracy = .finite s m' e' h ∧
      Canonical m' e' ∧ totalExponent m e ≤ totalExponent m' e' := by
  -- Rounding up may carry into a new leading digit, so there is a second shift after it.
  obtain ⟨x₁, e₁, hshift₁, hpos₁, hsize₁, he₁⟩ := shiftToTargetExponent_spec accuracy hm he hsize
  have hgrow : totalExponent m e ≤ totalExponent x₁.roundedMantissa e₁ :=
    hsize₁ ▸ totalExponent_mono (le_roundedMantissa x₁) e₁
  obtain ⟨x₂, e₂, hshift₂, hpos₂, hsize₂, he₂⟩ :=
    shiftToTargetExponent_spec .exact (hpos₁.trans_le (le_roundedMantissa x₁))
      (by rw [targetExponent_eq] at he₁ ⊢; omega) (hsize.trans_le hgrow)
  refine ⟨x₂.mantissa, e₂, hpos₂, ?_, ?_, ?_⟩
  · simp only [roundWithAccuracy, hshift₁, hshift₂, hpos₂.ne', ↓reduceDIte]
  · rw [Canonical, hsize₂, he₂]
  · rw [hsize₂]
    exact hgrow

/-! ## Packing -/

theorem unpack_pack_notANumber : (pack .notANumber).unpack = .notANumber :=
  rfl

theorem unpack_pack_infinity (s : Sign) : (pack (.infinity s)).unpack = .infinity s := by
  cases s <;> rfl

theorem unpack_pack_zero (s : Sign) : (pack (.zero s)).unpack = .zero s := by
  cases s <;> rfl

/-- The leading digit of a normal number is not packed. -/
theorem toNat_leading_append (v : BitVec 52) : (1#1 ++ v).toNat = 2 ^ 52 + v.toNat := by
  rw [BitVec.toNat_append, ← Nat.shiftLeft_add_eq_or_of_lt v.isLt]
  rfl

theorem unpack_normal (s : Sign) {m b : Nat} (hm : 0 < m) (hlog : m.log2 = 52) (hb : 0 < b)
    (hb' : b < 2047) :
    UnpackedFloat.unpack .binary64
        (UnpackedFloat.packComponents .binary64 s (BitVec.ofNat 11 b) (BitVec.ofNat 52 m)) =
      .finite s m (b - 1075) hm := by
  have hfrom : 2 ^ 52 ≤ m := (Nat.le_log2 hm.ne').1 hlog.ge
  have hto : m < 2 ^ 53 := (Nat.log2_lt hm.ne').1 (by omega)
  have hexponent : (BitVec.ofNat 11 b).toNat = b := Nat.mod_eq_of_lt (by omega)
  have hmantissa : (1#1 ++ BitVec.ofNat 52 m).toNat = m := by
    rw [toNat_leading_append, BitVec.toNat_ofNat]
    omega
  unfold UnpackedFloat.unpack
  simp only [UnpackedFloat.unpackExponent_packComponents,
    UnpackedFloat.unpackMantissa_packComponents, UnpackedFloat.unpackSign_packComponents,
    Sign.ofBitVec_toBitVec, hexponent, hmantissa]
  rw [if_neg (fun h => ?_), if_neg (fun h => ?_)]
  · rfl
  · rw [h] at hexponent
    exact hb.ne hexponent
  · rw [h] at hexponent
    exact hb'.ne hexponent.symm

theorem unpack_subnormal (s : Sign) {m : Nat} (hm : 0 < m) (hlog : m.log2 < 52) :
    UnpackedFloat.unpack .binary64
        (UnpackedFloat.packComponents .binary64 s 0#11 (BitVec.ofNat 52 m)) =
      .finite s m (-1074) hm := by
  have hmantissa : (BitVec.ofNat 52 m).toNat = m :=
    Nat.mod_eq_of_lt ((Nat.log2_lt hm.ne').1 hlog)
  unfold UnpackedFloat.unpack
  simp only [UnpackedFloat.unpackExponent_packComponents,
    UnpackedFloat.unpackMantissa_packComponents, UnpackedFloat.unpackSign_packComponents,
    Sign.ofBitVec_toBitVec, hmantissa]
  rw [if_neg (by decide), if_pos trivial, dif_neg (fun h => ?_)]
  · rfl
  · rw [h] at hmantissa
    exact hm.ne hmantissa

/-- A canonical number is packed without loss, unless its exponent is too large. -/
theorem unpack_pack_finite (s : Sign) {m : Nat} {e : Int} (hm : 0 < m) (hc : Canonical m e) :
    (pack (.finite s m e hm)).unpack = if 971 < e then .infinity s else .finite s m e hm := by
  obtain ⟨hlog, hlow, hclass⟩ := canonical_iff.1 hc
  have hbias : Format.binary64.exponentBias = 1023 := rfl
  have hbits : Format.binary64.mantissaBits = 53 := rfl
  unfold Float.Model.unpack Float.Model.pack UnpackedFloat.pack
  simp only [hbias, hbits]
  by_cases hlarge : 971 < e
  · rw [if_pos (by omega), if_pos hlarge]
    exact unpack_pack_infinity s
  · rw [if_neg (by omega), if_neg hlarge]
    by_cases hnormal : m.log2 = 52
    · rw [if_pos (by omega)]
      refine (unpack_normal s hm hnormal (by omega) (by omega)).trans ?_
      rw [UnpackedFloat.finite.injEq]
      exact ⟨rfl, rfl, by omega⟩
    · rw [if_neg (by omega)]
      refine (unpack_subnormal s hm (by omega)).trans ?_
      rw [UnpackedFloat.finite.injEq]
      exact ⟨rfl, rfl, by omega⟩

/-- The parts of a double are canonical. -/
theorem canonical_parts {x : Float} {s : Sign} {m : Nat} {e : Int} {hm : 0 < m}
    (h : parts x = .finite s m e hm) : Canonical m e ∧ e ≤ 971 := by
  rw [canonical_iff]
  have hbias : Format.binary64.exponentBias = 1023 := rfl
  unfold parts Float.Model.unpack UnpackedFloat.unpack at h
  obtain ⟨b, hb⟩ : ∃ b, @UnpackedFloat.unpackExponent .binary64 x.toModel.toBits.toBitVec = b :=
    ⟨_, rfl⟩
  obtain ⟨v, hv⟩ : ∃ v, @UnpackedFloat.unpackMantissa .binary64 x.toModel.toBits.toBitVec = v :=
    ⟨_, rfl⟩
  have hlt : v.toNat < 2 ^ 52 := v.isLt
  simp only [hbias, hb, hv] at h
  split_ifs at h with htop hinfinite hzero hnothing
  · obtain ⟨-, rfl, rfl⟩ := UnpackedFloat.finite.inj h
    have hlog : v.toNat.log2 < 52 := (Nat.log2_lt hm.ne').2 hlt
    rw [hzero]
    exact ⟨⟨hlog.le, le_rfl, .inr rfl⟩, by decide⟩
  · obtain ⟨-, rfl, rfl⟩ := UnpackedFloat.finite.inj h
    have hlog : (1#1 ++ v).toNat.log2 = 52 := by
      rw [toNat_leading_append]
      exact (Nat.log2_eq_iff (by omega)).2 (by omega)
    have hto : b.toNat < 2048 := b.isLt
    have htop' : b.toNat ≠ 2047 := fun he => htop (BitVec.eq_of_toNat_eq he)
    have hzero' : b.toNat ≠ 0 := fun he => hzero (BitVec.eq_of_toNat_eq he)
    omega

/-! ## One step -/

theorem parts_ten : ∃ h, parts 10.0 = .finite .positive (5 * 2 ^ 50) (-49) h :=
  ⟨by decide, rfl⟩

theorem parts_mul (x y : Float) :
    parts (x * y) = (pack (UnpackedFloat.mul .binary64 (parts x) (parts y))).unpack :=
  rfl

theorem sign_mul_positive (s : Sign) : s * Sign.positive = s := by
  cases s <;> rfl

/-- Ten times a finite number is at least three binary digits longer, or infinite. -/
theorem parts_mul_ten_of_finite {x : Float} {s : Sign} {m : Nat} {e : Int} {hm : 0 < m}
    (hx : parts x = .finite s m e hm) :
    parts (x * 10.0) = .infinity s ∨
      ∃ m' e' h, parts (x * 10.0) = .finite s m' e' h ∧
        totalExponent m e + 3 ≤ totalExponent m' e' := by
  obtain ⟨hc, -⟩ := canonical_parts hx
  obtain ⟨hten, hparts⟩ := parts_ten
  have hsize : totalExponent m e + 3 ≤ totalExponent (m * (5 * 2 ^ 50)) (e + -49) := by
    have hlog : m.log2 + 52 ≤ (m * (5 * 2 ^ 50)).log2 := by
      rw [Nat.le_log2 (by omega), pow_add]
      have := Nat.log2_self_le hm.ne'
      omega
    unfold totalExponent
    omega
  have hlow : -1074 < totalExponent m e := by
    have := (canonical_iff.1 hc).2.1
    unfold totalExponent
    omega
  have htarget : e + -49 ≤
      Format.binary64.targetExponent (totalExponent (m * (5 * 2 ^ 50)) (e + -49)) := by
    rw [Canonical, targetExponent_eq] at hc
    rw [targetExponent_eq]
    omega
  obtain ⟨m', e', hm', hround, hc', hsize'⟩ := roundWithAccuracy_spec s .exact
    (Nat.mul_pos hm hten) htarget (by omega)
  have hmul : parts (x * 10.0) = if 971 < e' then .infinity s else .finite s m' e' hm' := by
    rw [parts_mul, hx, hparts, ← unpack_pack_finite s hm' hc', ← hround, UnpackedFloat.mul,
      sign_mul_positive]
  split at hmul
  · exact .inl hmul
  · exact .inr ⟨m', e', hm', hmul, by omega⟩

/-! ## The whole run -/

theorem raised_succ (x : Float) (k : Nat) : raised x (k + 1) = raised x k * 10.0 :=
  Function.iterate_succ_apply' _ _ _

theorem parts_raised_of_finite {x : Float} {s : Sign} {m : Nat} {e : Int} {hm : 0 < m}
    (hx : parts x = .finite s m e hm) (k : Nat) :
    parts (raised x k) = .infinity s ∨
      ∃ m' e' h, parts (raised x k) = .finite s m' e' h ∧
        totalExponent m e + 3 * k ≤ totalExponent m' e' := by
  induction k with
  | zero => exact .inr ⟨m, e, hm, hx, by simp⟩
  | succ k ih =>
    rw [raised_succ]
    rcases ih with hinf | ⟨m₁, e₁, h₁, hparts, hsize⟩
    · left
      rw [parts_mul, hinf, parts_ten.2, UnpackedFloat.mul, sign_mul_positive, unpack_pack_infinity]
    · rcases parts_mul_ten_of_finite hparts with hinf | ⟨m₂, e₂, h₂, hparts₂, hsize₂⟩
      · exact .inl hinf
      · exact .inr ⟨m₂, e₂, h₂, hparts₂, by omega⟩

/-- What repeated multiplication by ten makes of a number. -/
def limit : UnpackedFloat → UnpackedFloat
  | .finite s _ _ _ => .infinity s
  | other => other

/-- A number that is its own limit is not changed by a further multiplication. -/
theorem mul_ten_of_parts {x : Float} {u : UnpackedFloat} (hx : parts x = limit u) :
    x * 10.0 = .ofModel (pack (limit u)) ∧ parts (x * 10.0) = limit u := by
  have hmul : x * 10.0 = .ofModel (pack (UnpackedFloat.mul .binary64 (parts x) (parts 10.0))) := rfl
  have hten : UnpackedFloat.mul .binary64 (limit u) (parts 10.0) = limit u := by
    rw [parts_ten.2]
    cases u <;> simp only [limit, UnpackedFloat.mul, sign_mul_positive]
  have hpack : (pack (limit u)).unpack = limit u := by
    cases u with
    | notANumber => exact unpack_pack_notANumber
    | infinity s => exact unpack_pack_infinity s
    | zero s => exact unpack_pack_zero s
    | finite s m e hm => exact unpack_pack_infinity s
  rw [hmul, hx, hten]
  exact ⟨rfl, hpack⟩

/-- Seven hundred steps are enough: the sizes of doubles reach from `-1073` to `1024`. -/
theorem parts_raised (x : Float) {k : Nat} (hk : 700 ≤ k) :
    parts (raised x k) = limit (parts x) := by
  cases hx : parts x with
  | finite s m e hm =>
    obtain ⟨hlog, hlow, -⟩ := canonical_iff.1 (canonical_parts hx).1
    rcases parts_raised_of_finite hx k with hinf | ⟨m', e', hm', hparts, hsize⟩
    · exact hinf
    · obtain ⟨hc', hhigh'⟩ := canonical_parts hparts
      have hlog' := (canonical_iff.1 hc').1
      unfold totalExponent at hsize
      omega
  -- Everything else is its own limit from the first step on.
  | _ =>
    clear hk
    induction k with
    | zero => exact hx
    | succ k ih =>
      rw [raised_succ]
      exact (mul_ten_of_parts ih).2

theorem raised_settled (x : Float) {k : Nat} (hk : 701 ≤ k) : raised x k = raised x 701 := by
  have hlimit : ∀ j, 700 ≤ j → raised x (j + 1) = .ofModel (pack (limit (parts x))) := by
    intro j hj
    rw [raised_succ]
    exact (mul_ten_of_parts (parts_raised x hj)).1
  obtain ⟨j, rfl⟩ : ∃ j, k = j + 1 := ⟨k - 1, by omega⟩
  rw [hlimit j (by omega), hlimit 700 le_rfl]

/-! ## Signs -/

theorem mul_ten_le_zero {x : Float} (h : x ≤ 0.0) : x * 10.0 ≤ 0.0 := by
  have hzero : parts 0.0 = .zero .positive := rfl
  rw [le_iff_place, hzero] at h ⊢
  rcases hx : parts x with (_ | _) | _ | _ | ⟨(_ | _), m, e, hm⟩
  case finite.negative =>
    rcases parts_mul_ten_of_finite hx with hinf | ⟨m', e', hm', hparts, -⟩
    · rw [hinf]
      simp [place, Prod.Lex.toLex_le_toLex]
    · rw [hparts]
      simp [place, Prod.Lex.toLex_le_toLex]
  case finite.positive | infinity.positive | notANumber =>
    rw [hx] at h
    simp [place, Prod.Lex.toLex_le_toLex] at h
  case infinity.negative | zero =>
    rw [hx] at h
    rw [(mul_ten_of_parts (u := parts x) (by rw [hx]; rfl)).2, hx]
    exact h

theorem raised_le_zero {x : Float} (h : x ≤ 0.0) (k : Nat) : raised x k ≤ 0.0 := by
  induction k with
  | zero => exact h
  | succ k ih =>
    rw [raised_succ]
    exact mul_ten_le_zero ih

theorem place_le_infinity {u : UnpackedFloat} {p : Int ×ₗ Int ×ₗ Int} (hp : p ∈ place u) :
    p ≤ toLex (2, toLex (0, 0)) := by
  rcases u with (_ | _) | _ | _ | ⟨(_ | _), m, e, hm⟩
  case notANumber => cases hp
  all_goals
    obtain rfl := Option.mem_some_iff.1 hp
    simp [Prod.Lex.toLex_le_toLex]

theorem limit_of_not_le_zero {x : Float} (h : ¬ x ≤ 0.0) :
    limit (parts x) = .infinity .positive ∨ limit (parts x) = .notANumber := by
  have hzero : parts 0.0 = .zero .positive := rfl
  rw [le_iff_place, hzero] at h
  rcases hx : parts x with (_ | _) | _ | _ | ⟨(_ | _), m, e, hm⟩
  case infinity.positive | finite.positive => exact .inl rfl
  case notANumber => exact .inr rfl
  case infinity.negative | zero | finite.negative =>
    rw [hx] at h
    simp [place, Prod.Lex.toLex_le_toLex] at h

/-- What is not below zero ends up above everything, or was no number in the first place. -/
theorem not_raised_lt {x : Float} (h : ¬ x ≤ 0.0) (y : Float) {k : Nat} (hk : 700 ≤ k) :
    ¬ raised x k < y := by
  rw [lt_iff_place, parts_raised x hk]
  rintro ⟨p, hp, q, hq, hlt⟩
  rcases limit_of_not_le_zero h with hlimit | hlimit <;> rw [hlimit] at hp
  · obtain rfl := Option.mem_some_iff.1 hp
    exact (place_le_infinity hq).not_gt hlt
  · cases hp

end Double

end FluidAnalysis
