import Mathlib.Order.Interval.Set.Monotone
import Mathlib.Tactic.Linarith
import Mathlib.Tactic.Ring
import FluidAnalysis.Numeric.Bisection
import FluidAnalysis.Proofs.Exact

/-!
# What a bisection does

A bisection tries the middle of a bracket and goes on with one of its halves. The brackets whose
middles it tries form a list, `Enclosure.tried`, and the result can be read off that list
(`bisect_eq_outcome`).

Over exact scalars:

* `bisect_value_le` — a larger target never gives a smaller value, whatever the function is
* `mem_of_getElem?_tried` — a point whose value is the target stays in the bracket
* `abs_sub_le_of_unsettled` — without convergence the last middle is within the last half width
-/

namespace FluidAnalysis.Numeric

open Exact

/-! ## Brackets -/

/-- A bracket: the interval that a bisection is left with. -/
structure Enclosure (α : Type) where
  low : α
  high : α

namespace Enclosure

section

variable {α : Type} [Scalar α]

def middle (b : Enclosure α) : α := 0.5 * (b.low + b.high)

/-- The middle is close enough, and the bisection ends there. -/
def settles (f : α → α) (target resolution : α) (b : Enclosure α) : Bool :=
  decide (Scalar.abs (f b.middle - target) < resolution)

/-- The half in which the search goes on. -/
def narrowed (f : α → α) (target : α) (b : Enclosure α) : Enclosure α :=
  if target < f b.middle then ⟨b.low, b.middle⟩ else ⟨b.middle, b.high⟩

/-- The brackets whose middles are tried, in order, `limit` of them at most. -/
def tried (f : α → α) (target resolution : α) : (limit : Nat) → Enclosure α → List (Enclosure α)
  | 0, _ => []
  | limit + 1, b =>
    b :: if b.settles f target resolution then []
      else tried f target resolution limit (b.narrowed f target)

end

end Enclosure

section

variable {α : Type} [Scalar α] {f : α → α} {target resolution : α}

/-- The result of a bisection that tried some brackets: the last middle, their number, and whether
the last one settled. -/
def outcome (f : α → α) (target resolution guess : α) (count : Nat) (run : List (Enclosure α)) :
    Bisection α :=
  ⟨(run.map Enclosure.middle).getLastD guess, count + run.length,
    run.getLast?.any (Enclosure.settles f target resolution)⟩

theorem outcome_iterations (guess : α) (count : Nat) (run : List (Enclosure α)) :
    (outcome f target resolution guess count run).iterations = count + run.length := rfl

theorem outcome_converged (guess : α) (count : Nat) (run : List (Enclosure α)) :
    (outcome f target resolution guess count run).converged =
      run.getLast?.any (Enclosure.settles f target resolution) := rfl

theorem outcome_value {guess : α} {count : Nat} {run : List (Enclosure α)} {last : Enclosure α}
    (h : run.getLast? = some last) :
    (outcome f target resolution guess count run).value = last.middle := by
  rw [outcome, List.getLastD_eq_getLast?, List.getLast?_map, h]
  rfl

theorem bisectFrom_succ (remaining count : Nat) (guess : α) (b : Enclosure α) :
    bisectFrom f target resolution (remaining + 1) count guess b.low b.high =
      if b.settles f target resolution then ⟨b.middle, count + 1, true⟩
      else bisectFrom f target resolution remaining (count + 1) b.middle
        (b.narrowed f target).low (b.narrowed f target).high := by
  rw [bisectFrom, Enclosure.settles, Enclosure.narrowed, Enclosure.middle]
  split_ifs with hsettles hleft <;> simp_all

omit [Scalar α] in
theorem any_getLast?_cons {p : Enclosure α → Bool} {b : Enclosure α} (h : p b = false)
    (run : List (Enclosure α)) : (b :: run).getLast?.any p = run.getLast?.any p := by
  cases run with
  | nil => simpa using h
  | cons c rest => rw [List.getLast?_cons_cons]

theorem bisectFrom_eq_outcome (remaining count : Nat) (guess : α) (b : Enclosure α) :
    bisectFrom f target resolution remaining count guess b.low b.high =
      outcome f target resolution guess count (b.tried f target resolution remaining) := by
  induction remaining generalizing count guess b with
  | zero => rfl
  | succ remaining ih =>
    rw [bisectFrom_succ, Enclosure.tried]
    by_cases hsettles : b.settles f target resolution = true
    · simp [outcome, hsettles]
    · rw [if_neg hsettles, if_neg hsettles, ih, outcome, outcome,
        any_getLast?_cons (Bool.eq_false_iff.mpr hsettles), List.map_cons, List.getLastD_cons,
        List.length_cons, Nat.add_assoc, Nat.add_comm 1]

/-- **The result of a bisection is read off the brackets it tries.** -/
theorem bisect_eq_outcome (low high : α) (limit : Nat) :
    bisect f target low high resolution limit =
      outcome f target resolution (Enclosure.middle ⟨low, high⟩) 0
        (Enclosure.tried f target resolution limit ⟨low, high⟩) :=
  bisectFrom_eq_outcome limit 0 _ ⟨low, high⟩

theorem length_tried_le (limit : Nat) (b : Enclosure α) :
    (b.tried f target resolution limit).length ≤ limit := by
  induction limit generalizing b with
  | zero => exact Nat.le_refl 0
  | succ limit ih =>
    rw [Enclosure.tried, List.length_cons]
    split_ifs
    · exact Nat.succ_le_succ (Nat.zero_le limit)
    · exact Nat.succ_le_succ (ih _)

/-- A bisection that does not settle uses up its limit. -/
theorem length_tried_of_unsettled {limit : Nat} {b : Enclosure α}
    (h : (b.tried f target resolution limit).getLast?.any (Enclosure.settles f target resolution) =
      false) :
    (b.tried f target resolution limit).length = limit := by
  induction limit generalizing b with
  | zero => rfl
  | succ limit ih =>
    rw [Enclosure.tried] at h ⊢
    by_cases hsettles : b.settles f target resolution = true
    · simp [hsettles] at h
    · rw [if_neg hsettles, any_getLast?_cons (Bool.eq_false_iff.mpr hsettles)] at h
      rw [if_neg hsettles, List.length_cons, ih h]

end

/-! ## Halves of exact brackets -/

section Exact

variable {K : Type} [Field K] [LinearOrder K] [IsStrictOrderedRing K] [IntegerParts K]
  {f : K → K} {target resolution x : K} {b c : Enclosure K}

namespace Enclosure

theorem middle_eq (b : Enclosure K) : b.middle = (b.low + b.high) / 2 := by
  have hhalf : (0.5 : K) = 1 / 2 := by norm_num
  rw [middle, hhalf]
  ring

theorem low_le_middle (h : b.low ≤ b.high) : b.low ≤ b.middle := by
  rw [middle_eq]
  linarith

theorem middle_le_high (h : b.low ≤ b.high) : b.middle ≤ b.high := by
  rw [middle_eq]
  linarith

theorem low_lt_middle (h : b.low < b.high) : b.low < b.middle := by
  rw [middle_eq]
  linarith

theorem middle_lt_high (h : b.low < b.high) : b.middle < b.high := by
  rw [middle_eq]
  linarith

omit [IsStrictOrderedRing K] in
theorem narrowed_of_lt (h : target < f b.middle) : b.narrowed f target = ⟨b.low, b.middle⟩ :=
  if_pos h

omit [IsStrictOrderedRing K] in
theorem narrowed_of_le (h : f b.middle ≤ target) : b.narrowed f target = ⟨b.middle, b.high⟩ :=
  if_neg (not_lt.mpr h)

omit [IsStrictOrderedRing K] in
theorem settles_iff : b.settles f target resolution = true ↔ |f b.middle - target| < resolution :=
  decide_eq_true_iff

theorem width_narrowed (f : K → K) (target : K) (b : Enclosure K) :
    (b.narrowed f target).high - (b.narrowed f target).low = (b.high - b.low) / 2 := by
  rcases lt_or_ge target (f b.middle) with hleft | hright
  · rw [narrowed_of_lt hleft, middle_eq]
    ring
  · rw [narrowed_of_le hright, middle_eq]
    ring

/-- A half lies in its bracket and has the middle as an end. -/
theorem narrowed_bounds (f : K → K) (target : K) (h : b.low ≤ b.high) :
    b.low ≤ (b.narrowed f target).low ∧ (b.narrowed f target).low ≤ b.middle ∧
      b.middle ≤ (b.narrowed f target).high ∧ (b.narrowed f target).high ≤ b.high := by
  have hlow := low_le_middle h
  have hhigh := middle_le_high h
  rcases lt_or_ge target (f b.middle) with hleft | hright
  · rw [narrowed_of_lt hleft]
    exact ⟨le_refl _, hlow, le_refl _, hhigh⟩
  · rw [narrowed_of_le hright]
    exact ⟨hlow, le_refl _, hhigh, le_refl _⟩

theorem narrowed_low_lt_high (f : K → K) (target : K) (h : b.low < b.high) :
    (b.narrowed f target).low < (b.narrowed f target).high := by
  have hwidth := width_narrowed f target b
  linarith

end Enclosure

/-! ## Targets in order -/

open Enclosure

theorem bisectFrom_value_mem (h : b.low ≤ b.high) {guess : K} (hlow : b.low ≤ guess)
    (hhigh : guess ≤ b.high) (remaining count : Nat) :
    b.low ≤ (bisectFrom f target resolution remaining count guess b.low b.high).value ∧
      (bisectFrom f target resolution remaining count guess b.low b.high).value ≤ b.high := by
  induction remaining generalizing count guess b with
  | zero => exact ⟨hlow, hhigh⟩
  | succ remaining ih =>
    rw [bisectFrom_succ]
    split_ifs
    · exact ⟨low_le_middle h, middle_le_high h⟩
    · obtain ⟨hl, hlm, hmh, hh⟩ := narrowed_bounds f target h
      obtain ⟨hvl, hvh⟩ := ih (hlm.trans hmh) hlm hmh (count + 1)
      exact ⟨hl.trans hvl, hvh.trans hh⟩

/-- A target that settles at a value lets no larger one go to the left of it. -/
theorem le_of_settled_of_unsettled {v t₁ t₂ : K} (h : t₁ ≤ t₂) (h₁ : |v - t₁| < resolution)
    (h₂ : ¬ |v - t₂| < resolution) : v ≤ t₂ := by
  by_contra hv
  apply h₂
  rw [abs_of_pos (by linarith)]
  linarith [le_abs_self (v - t₁)]

/-- A target that settles at a value lets no smaller one go to the right of it. -/
theorem lt_of_unsettled_of_settled {v t₁ t₂ : K} (h : t₁ ≤ t₂) (h₁ : ¬ |v - t₁| < resolution)
    (h₂ : |v - t₂| < resolution) : t₁ < v := by
  by_contra hv
  apply h₁
  rw [abs_of_nonpos (by linarith)]
  linarith [neg_abs_le (v - t₂)]

/-- Two searches from one bracket end in the order of their targets. As long as both go the same way
their brackets are the same; where they part, the middle stands between them from then on. -/
theorem bisectFrom_value_le {t₁ t₂ : K} (ht : t₁ ≤ t₂) (h : b.low ≤ b.high)
    (remaining count : Nat) (guess : K) :
    (bisectFrom f t₁ resolution remaining count guess b.low b.high).value ≤
      (bisectFrom f t₂ resolution remaining count guess b.low b.high).value := by
  induction remaining generalizing count guess b with
  | zero => exact le_refl guess
  | succ remaining ih =>
    have hlow := low_le_middle h
    have hhigh := middle_le_high h
    -- what is found on either side of the middle
    have hleft : ∀ t, t < f b.middle →
        (bisectFrom f t resolution remaining (count + 1) b.middle
          (b.narrowed f t).low (b.narrowed f t).high).value ≤ b.middle := by
      intro t hlt
      rw [narrowed_of_lt hlt]
      exact (bisectFrom_value_mem (b := ⟨b.low, b.middle⟩) hlow hlow (le_refl _) remaining
        (count + 1)).2
    have hright : ∀ t, f b.middle ≤ t →
        b.middle ≤ (bisectFrom f t resolution remaining (count + 1) b.middle
          (b.narrowed f t).low (b.narrowed f t).high).value := by
      intro t hle
      rw [narrowed_of_le hle]
      exact (bisectFrom_value_mem (b := ⟨b.middle, b.high⟩) hhigh (le_refl _) hhigh remaining
        (count + 1)).1
    rw [bisectFrom_succ, bisectFrom_succ]
    split_ifs with h₁ h₂ h₂
    · exact le_refl b.middle
    · rw [settles_iff] at h₁ h₂
      exact hright t₂ (le_of_settled_of_unsettled ht h₁ h₂)
    · rw [settles_iff] at h₁ h₂
      exact hleft t₁ (lt_of_unsettled_of_settled ht h₁ h₂)
    · rcases lt_or_ge t₁ (f b.middle) with hl₁ | hr₁
      · rcases lt_or_ge t₂ (f b.middle) with hl₂ | hr₂
        · rw [narrowed_of_lt hl₁, narrowed_of_lt hl₂]
          exact ih (b := ⟨b.low, b.middle⟩) hlow (count + 1) b.middle
        · exact (hleft t₁ hl₁).trans (hright t₂ hr₂)
      · rw [narrowed_of_le hr₁, narrowed_of_le (hr₁.trans ht)]
        exact ih (b := ⟨b.middle, b.high⟩) hhigh (count + 1) b.middle

theorem bisect_value_le {t₁ t₂ low high : K} (f : K → K) (resolution : K) (limit : Nat)
    (h : low ≤ high) (ht : t₁ ≤ t₂) :
    (bisect f t₁ low high resolution limit).value ≤ (bisect f t₂ low high resolution limit).value :=
  bisectFrom_value_le (b := ⟨low, high⟩) ht h limit 0 _

/-! ## A root in the bracket -/

/-- The brackets of a bisection lie in the first one and do not vanish. -/
theorem bounds_of_mem_tried {limit : Nat} (h : b.low < b.high)
    (hc : c ∈ b.tried f target resolution limit) :
    b.low ≤ c.low ∧ c.low < c.high ∧ c.high ≤ b.high := by
  induction limit generalizing b with
  | zero => exact absurd hc List.not_mem_nil
  | succ limit ih =>
    rw [tried] at hc
    rcases List.mem_cons.mp hc with rfl | hrest
    · exact ⟨le_refl _, h, le_refl _⟩
    · split_ifs at hrest
      · exact absurd hrest List.not_mem_nil
      · obtain ⟨hl, -, -, hh⟩ := narrowed_bounds f target h.le
        obtain ⟨hlow, hlt, hhigh⟩ := ih (narrowed_low_lt_high f target h) hrest
        exact ⟨hl.trans hlow, hlt, hhigh.trans hh⟩

/-- **One step keeps the root:** the half in which the search goes on holds it. -/
theorem mem_narrowed (hf : StrictMonoOn f (Set.Ico b.low b.high)) (hx : x ∈ Set.Ico b.low b.high) :
    x ∈ Set.Ico (b.narrowed f (f x)).low (b.narrowed f (f x)).high := by
  have hb : b.low < b.high := hx.1.trans_lt hx.2
  have hmiddle : b.middle ∈ Set.Ico b.low b.high := ⟨(low_lt_middle hb).le, middle_lt_high hb⟩
  rcases lt_or_ge (f x) (f b.middle) with hleft | hright
  · rw [narrowed_of_lt hleft]
    exact ⟨hx.1, (hf.lt_iff_lt hx hmiddle).mp hleft⟩
  · rw [narrowed_of_le hright]
    exact ⟨(hf.le_iff_le hmiddle hx).mp hright, hx.2⟩

/-- **The root stays in the bracket,** and each bracket is half as wide as the one before. -/
theorem mem_of_getElem?_tried {limit k : Nat} (hf : StrictMonoOn f (Set.Ico b.low b.high))
    (hx : x ∈ Set.Ico b.low b.high) (hc : (b.tried f (f x) resolution limit)[k]? = some c) :
    x ∈ Set.Ico c.low c.high ∧ c.high - c.low = (b.high - b.low) / 2 ^ k := by
  induction limit generalizing b k with
  | zero => simp [tried] at hc
  | succ limit ih =>
    rw [tried] at hc
    cases k with
    | zero =>
      obtain rfl : b = c := by simpa using hc
      exact ⟨hx, by rw [pow_zero, div_one]⟩
    | succ k =>
      rw [List.getElem?_cons_succ] at hc
      split_ifs at hc
      · simp at hc
      · obtain ⟨hl, -, -, hh⟩ := narrowed_bounds f (f x) (hx.1.trans hx.2.le)
        obtain ⟨hin, hwidth⟩ := ih (hf.mono (Set.Ico_subset_Ico hl hh)) (mem_narrowed hf hx) hc
        refine ⟨hin, ?_⟩
        rw [hwidth, width_narrowed, div_div, pow_succ']

theorem abs_middle_sub_le (hx : x ∈ Set.Ico b.low b.high) :
    |b.middle - x| ≤ (b.high - b.low) / 2 := by
  obtain ⟨hlow, hhigh⟩ := hx
  rw [middle_eq, abs_le]
  constructor <;> linarith

omit [IsStrictOrderedRing K] in
/-- A search that settles has tried a middle that is close enough. -/
theorem abs_sub_lt_of_settled {low high : K} {limit : Nat}
    (h : (bisect f target low high resolution limit).converged = true) :
    |f (bisect f target low high resolution limit).value - target| < resolution ∧
      1 ≤ (bisect f target low high resolution limit).iterations ∧
      (bisect f target low high resolution limit).iterations ≤ limit := by
  rw [bisect_eq_outcome] at h ⊢
  cases hlast : (tried f target resolution limit ⟨low, high⟩).getLast? with
  | none =>
    rw [outcome_converged, hlast] at h
    cases h
  | some last =>
    rw [outcome_converged, hlast] at h
    rw [outcome_value hlast, outcome_iterations, Nat.zero_add]
    have hne : tried f target resolution limit ⟨low, high⟩ ≠ [] := by
      intro hnil
      rw [hnil] at hlast
      cases hlast
    exact ⟨settles_iff.mp h, List.length_pos_iff.mpr hne, length_tried_le limit _⟩

/-- The last middle of a search that found nothing close enough. -/
theorem abs_sub_le_of_unsettled {low high : K} {limit : Nat}
    (hf : StrictMonoOn f (Set.Ico low high)) (hx : x ∈ Set.Ico low high)
    (h : (bisect f (f x) low high resolution limit).converged = false) :
    (bisect f (f x) low high resolution limit).iterations = limit ∧
      |(bisect f (f x) low high resolution limit).value - x| ≤ (high - low) / 2 ^ limit := by
  rw [bisect_eq_outcome] at h ⊢
  have hlength := length_tried_of_unsettled h
  refine ⟨(Nat.zero_add _).trans hlength, ?_⟩
  cases hlast : (tried f (f x) resolution limit ⟨low, high⟩).getLast? with
  | none =>
    have hnil := List.getLast?_eq_none_iff.mp hlast
    rw [hnil, List.length_nil] at hlength
    have hwidth := abs_middle_sub_le (b := ⟨low, high⟩) hx
    rw [hnil, ← hlength, pow_zero, div_one]
    refine hwidth.trans (half_le_self (sub_nonneg.mpr ?_))
    exact hx.1.trans hx.2.le
  | some c =>
    rw [outcome_value hlast]
    rw [List.getLast?_eq_getElem?, hlength] at hlast
    obtain ⟨hin, hwidth⟩ := mem_of_getElem?_tried hf hx hlast
    have hpos : limit = limit - 1 + 1 := by
      have hlt := (List.getElem?_eq_some_iff.mp hlast).1
      omega
    calc |c.middle - x| ≤ (c.high - c.low) / 2 := abs_middle_sub_le hin
      _ = (high - low) / 2 ^ limit := by
        rw [hwidth, div_div, ← pow_succ, ← hpos]

/-- Every middle that is tried lies inside the first bracket. -/
theorem middle_mem_of_mem_tried {limit : Nat} (h : b.low < b.high)
    (hc : c ∈ b.tried f target resolution limit) : c.middle ∈ Set.Ioo b.low b.high := by
  obtain ⟨hlow, hlt, hhigh⟩ := bounds_of_mem_tried h hc
  exact ⟨hlow.trans_lt (low_lt_middle hlt), (middle_lt_high hlt).trans_le hhigh⟩

/-- The value is a middle, also when none was tried. -/
theorem bisect_value_mem {low high : K} (h : low < high) (limit : Nat) :
    (bisect f target low high resolution limit).value ∈ Set.Ioo low high := by
  rw [bisect_eq_outcome]
  cases hlast : (tried f target resolution limit ⟨low, high⟩).getLast? with
  | none =>
    rw [List.getLast?_eq_none_iff.mp hlast]
    exact ⟨low_lt_middle (b := ⟨low, high⟩) h, middle_lt_high (b := ⟨low, high⟩) h⟩
  | some last =>
    rw [outcome_value hlast]
    exact middle_mem_of_mem_tried (b := ⟨low, high⟩) h (List.mem_of_getLast? hlast)

/-- What a bisection for the value at `x` does. -/
structure HomesIn (f : K → K) (x low high resolution : K) (limit : Nat) : Prop where
  /-- The result is that of the brackets that are tried. -/
  result : bisect f (f x) low high resolution limit =
    outcome f (f x) resolution (Enclosure.middle ⟨low, high⟩) 0
      (tried f (f x) resolution limit ⟨low, high⟩)
  guess : ∀ c ∈ tried f (f x) resolution limit ⟨low, high⟩, c.middle ∈ Set.Ico low high
  value : (bisect f (f x) low high resolution limit).value ∈ Set.Ico low high
  /-- The root is in each bracket, and in the half of it in which the search goes on. -/
  root : ∀ c ∈ tried f (f x) resolution limit ⟨low, high⟩, x ∈ Set.Ico c.low c.high ∧
    x ∈ Set.Ico (c.narrowed f (f x)).low (c.narrowed f (f x)).high
  width : ∀ k c, (tried f (f x) resolution limit ⟨low, high⟩)[k]? = some c →
    c.high - c.low = (high - low) / 2 ^ k
  settled : (bisect f (f x) low high resolution limit).converged = true →
    |f (bisect f (f x) low high resolution limit).value - f x| < resolution ∧
      1 ≤ (bisect f (f x) low high resolution limit).iterations ∧
      (bisect f (f x) low high resolution limit).iterations ≤ limit
  unsettled : (bisect f (f x) low high resolution limit).converged = false →
    (bisect f (f x) low high resolution limit).iterations = limit ∧
      |(bisect f (f x) low high resolution limit).value - x| ≤ (high - low) / 2 ^ limit

theorem homesIn {low high : K} (hf : StrictMonoOn f (Set.Ico low high)) (hx : x ∈ Set.Ico low high)
    (resolution : K) (limit : Nat) : HomesIn f x low high resolution limit where
  result := bisect_eq_outcome low high limit
  guess := fun c hc =>
    Set.Ioo_subset_Ico_self (middle_mem_of_mem_tried (b := ⟨low, high⟩) (hx.1.trans_lt hx.2) hc)
  value := Set.Ioo_subset_Ico_self (bisect_value_mem (hx.1.trans_lt hx.2) limit)
  root := by
    intro c hc
    obtain ⟨k, hk⟩ := List.getElem?_of_mem hc
    obtain ⟨hlow, -, hhigh⟩ := bounds_of_mem_tried (b := ⟨low, high⟩) (hx.1.trans_lt hx.2) hc
    obtain ⟨hin, -⟩ := mem_of_getElem?_tried (b := ⟨low, high⟩) hf hx hk
    exact ⟨hin, mem_narrowed (hf.mono (Set.Ico_subset_Ico hlow hhigh)) hin⟩
  width := fun k c hc => (mem_of_getElem?_tried (b := ⟨low, high⟩) hf hx hc).2
  settled := abs_sub_lt_of_settled
  unsettled := abs_sub_le_of_unsettled hf hx

end Exact

end FluidAnalysis.Numeric
