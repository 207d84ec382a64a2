/-!
# Traversals

What a computation that can fail says of its parts, when it succeeds and when it fails: a sequence of
two of them, and one for each entry of a list.
-/

namespace FluidAnalysis

variable {ε α β γ : Type}

theorem bind_eq_ok_iff {x : Except ε α} {f : α → Except ε β} {b : β} :
    x >>= f = .ok b ↔ ∃ a, x = .ok a ∧ f a = .ok b := by
  cases x with
  | error e => exact ⟨nofun, nofun⟩
  | ok a => exact ⟨fun h => ⟨a, rfl, h⟩, fun ⟨_, ha, h⟩ => Except.ok.inj ha ▸ h⟩

theorem eq_ok_of_toOption {x : Except ε α} {a : α} (h : x.toOption = some a) : x = .ok a := by
  cases x with
  | error e => cases h
  | ok b => exact congrArg Except.ok (Option.some.inj h)

theorem pair_eq_of_toOption {x : Except ε α × β} {a : α} (h : x.1.toOption = some a) :
    x = (.ok a, x.2) := by
  rw [← eq_ok_of_toOption h]

theorem bind_eq_error {x : Except ε α} {f : α → Except ε β} {e : ε} (h : x >>= f = .error e) :
    x = .error e ∨ ∃ a, x = .ok a ∧ f a = .error e := by
  cases x with
  | error d => exact .inl (congrArg Except.error (Except.error.inj h))
  | ok a => exact .inr ⟨a, rfl, h⟩

theorem bind_eq_error_iff {x : Except ε α} {f : α → Except ε β} {e : ε} :
    x >>= f = .error e ↔ x = .error e ∨ ∃ a, x = .ok a ∧ f a = .error e := by
  refine ⟨bind_eq_error, ?_⟩
  rintro (rfl | ⟨a, rfl, h⟩)
  · rfl
  · exact h

/-- A list is split at its first entry or at a later one. -/
theorem exists_split_cons_iff {x : α} {xs : List α} {q : List α → α → Prop} :
    (∃ before y after, x :: xs = before ++ y :: after ∧ q before y) ↔
      q [] x ∨ ∃ before y after, xs = before ++ y :: after ∧ q (x :: before) y := by
  constructor
  · rintro ⟨before, y, after, hsplit, h⟩
    cases before with
    | nil =>
      obtain ⟨rfl, rfl⟩ := List.cons.inj hsplit
      exact .inl h
    | cons first before =>
      obtain ⟨rfl, rfl⟩ := List.cons.inj hsplit
      exact .inr ⟨before, y, after, rfl, h⟩
  · rintro (h | ⟨before, y, after, rfl, h⟩)
    · exact ⟨[], x, xs, rfl, h⟩
    · exact ⟨x :: before, y, after, rfl, h⟩

/-- A traversal succeeds with `ys` if its steps give the entries of `ys`. -/
theorem mapM_eq_ok_iff {f : α → Except ε β} : ∀ {xs : List α} {ys : List β},
    xs.mapM f = .ok ys ↔ xs.map f = ys.map .ok
  | [], [] => ⟨fun _ => rfl, fun _ => rfl⟩
  | [], _ :: _ => ⟨nofun, nofun⟩
  | x :: xs, ys => by
    rw [List.mapM_cons, List.map_cons, bind_eq_ok_iff]
    constructor
    · rintro ⟨y, hy, h⟩
      obtain ⟨zs, hzs, h⟩ := bind_eq_ok_iff.mp h
      cases h
      rw [hy, mapM_eq_ok_iff.mp hzs, List.map_cons]
    · intro h
      cases ys with
      | nil => cases h
      | cons y ys =>
        obtain ⟨hhead, htail⟩ := List.cons.inj h
        refine ⟨y, hhead, ?_⟩
        rw [mapM_eq_ok_iff.mpr htail]
        rfl

/-- Every entry of a result is what a step gives. -/
theorem exists_of_mem_mapM {f : α → Except ε β} {xs : List α} {ys : List β} {y : β}
    (h : xs.mapM f = .ok ys) (hy : y ∈ ys) : ∃ x ∈ xs, f x = .ok y := by
  have hmem : Except.ok y ∈ xs.map f := by
    rw [mapM_eq_ok_iff.mp h]
    exact List.mem_map_of_mem hy
  exact List.mem_map.mp hmem

/-- A traversal fails with the fault of the first step that fails. -/
theorem mapM_eq_error_iff {f : α → Except ε β} {e : ε} {xs : List α} :
    xs.mapM f = .error e ↔ ∃ before x after, xs = before ++ x :: after ∧
      (∀ y ∈ before, ∃ z, f y = .ok z) ∧ f x = .error e := by
  induction xs with
  | nil =>
    constructor
    · intro h
      cases h
    · rintro ⟨before, x, after, hsplit, -, -⟩
      simp at hsplit
  | cons x xs ih =>
    rw [List.mapM_cons]
    constructor
    · intro h
      rcases bind_eq_error h with hx | ⟨y, hy, h⟩
      · exact ⟨[], x, xs, rfl, by simp, hx⟩
      · rcases bind_eq_error h with hxs | ⟨ys, -, h⟩
        · obtain ⟨before, x', after, rfl, hbefore, hx'⟩ := ih.mp hxs
          exact ⟨x :: before, x', after, rfl, List.forall_mem_cons.mpr ⟨⟨y, hy⟩, hbefore⟩, hx'⟩
        · cases h
    · rintro ⟨before, x', after, hsplit, hbefore, hx'⟩
      cases before with
      | nil =>
        obtain ⟨rfl, rfl⟩ := List.cons.inj hsplit
        rw [hx']
        rfl
      | cons first before =>
        obtain ⟨rfl, rfl⟩ := List.cons.inj hsplit
        obtain ⟨⟨y, hy⟩, hbefore⟩ := List.forall_mem_cons.mp hbefore
        rw [hy, ih.mpr ⟨before, x', after, rfl, hbefore, hx'⟩]
        rfl

/-- A traversal fails with the fault of one of its steps. -/
theorem exists_eq_error_of_mapM {f : α → Except ε β} {e : ε} {xs : List α}
    (h : xs.mapM f = .error e) : ∃ x ∈ xs, f x = .error e := by
  obtain ⟨before, x, after, rfl, -, hx⟩ := mapM_eq_error_iff.mp h
  exact ⟨x, by simp, hx⟩

/-- Steps that give nothing for some entries are steps on the others. -/
theorem mapM_filterMap {f : α → Except ε (Option β)} {g : α → Except ε β} {p : α → Bool}
    (hskip : ∀ x, p x = false → f x = .ok none)
    (hkeep : ∀ x, p x = true → f x = g x >>= fun y => .ok (some y)) (xs : List α) :
    (xs.mapM f >>= fun found => .ok (found.filterMap id)) = (xs.filter p).mapM g := by
  induction xs with
  | nil => rfl
  | cons x xs ih =>
    rw [List.mapM_cons]
    cases hp : p x with
    | false =>
      rw [List.filter_cons_of_neg (by simp [hp]), ← ih, hskip x hp]
      cases xs.mapM f <;> rfl
    | true =>
      rw [List.filter_cons_of_pos hp, List.mapM_cons, ← ih, hkeep x hp]
      cases g x with
      | error e => rfl
      | ok y => cases xs.mapM f <;> rfl

/-- Steps that all succeed have a list of results. -/
theorem exists_map_eq_map_ok {f : α → Except ε β} : ∀ {xs : List α},
    (∀ x ∈ xs, ∃ y, f x = .ok y) → ∃ ys : List β, xs.map f = ys.map .ok
  | [], _ => ⟨[], rfl⟩
  | x :: xs, h => by
    obtain ⟨y, hy⟩ := h x List.mem_cons_self
    obtain ⟨ys, hys⟩ := exists_map_eq_map_ok fun x hx => h x (List.mem_cons_of_mem _ hx)
    exact ⟨y :: ys, by rw [List.map_cons, List.map_cons, hy, hys]⟩

/-- What every step says of its result, for all steps together. -/
theorem map_eq_of_map_ok {f : α → Except ε β} {g : β → γ} {h : α → γ}
    (step : ∀ x y, f x = .ok y → g y = h x) : ∀ {xs : List α} {ys : List β},
    xs.map f = ys.map .ok → ys.map g = xs.map h
  | [], [], _ => rfl
  | x :: xs, y :: ys, heq => by
    obtain ⟨hhead, htail⟩ := List.cons.inj heq
    rw [List.map_cons, List.map_cons, step x y hhead, map_eq_of_map_ok step htail]

/-- Two traversals, one after the other, are one. -/
theorem mapM_bind_eq_ok {f : α → Except ε β} {g : β → Except ε γ} {xs : List α}
    {ys : List β} {zs : List γ} (hf : xs.map f = ys.map .ok) (hg : ys.map g = zs.map .ok) :
    xs.mapM (fun x => f x >>= g) = .ok zs := by
  rw [mapM_eq_ok_iff, ← hg]
  calc xs.map (fun x => f x >>= g) = (xs.map f).map (· >>= g) := by rw [List.map_map]; rfl
    _ = (ys.map .ok).map (· >>= g) := by rw [hf]
    _ = ys.map g := by rw [List.map_map]; rfl

/-- A traversal with two computations at each step is two traversals. -/
theorem exists_of_mapM_bind {f : α → Except ε β} {g : β → Except ε γ} {xs : List α}
    {zs : List γ} (h : xs.mapM (fun x => f x >>= g) = .ok zs) :
    ∃ ys : List β, xs.map f = ys.map .ok ∧ ys.map g = zs.map .ok := by
  rw [mapM_eq_ok_iff] at h
  induction xs generalizing zs with
  | nil => exact ⟨[], rfl, h⟩
  | cons x xs ih =>
    cases zs with
    | nil => cases h
    | cons z zs =>
      obtain ⟨hhead, htail⟩ := List.cons.inj h
      obtain ⟨y, hy, hz⟩ := bind_eq_ok_iff.mp hhead
      obtain ⟨ys, hys, hzs⟩ := ih htail
      exact ⟨y :: ys, by rw [List.map_cons, List.map_cons, hy, hys],
        by rw [List.map_cons, List.map_cons, hz, hzs]⟩

/-! ## Optional values -/

/-- A traversal of optional values needs all of them. -/
theorem isSome_mapM_iff {f : α → Option β} : ∀ {xs : List α},
    (xs.mapM f).isSome ↔ ∀ x ∈ xs, (f x).isSome
  | [] => by simp
  | x :: xs => by
    rw [List.mapM_cons, List.forall_mem_cons, ← isSome_mapM_iff]
    cases f x with
    | none => simp
    | some y => cases xs.mapM f <;> simp

theorem mapM_take_eq_some {f : α → Option β} :
    ∀ {xs : List α} {ys : List β} (k : Nat), xs.mapM f = some ys →
      (xs.take k).mapM f = some (ys.take k)
  | _, _, 0, _ => rfl
  | [], ys, k + 1, h => by
    cases h
    rfl
  | x :: xs, ys, k + 1, h => by
    rw [List.mapM_cons] at h
    obtain ⟨y, hy, h⟩ := Option.bind_eq_some_iff.mp h
    obtain ⟨zs, hzs, h⟩ := Option.bind_eq_some_iff.mp h
    cases h
    rw [List.take_succ_cons, List.take_succ_cons, List.mapM_cons, hy, mapM_take_eq_some k hzs]
    rfl

end FluidAnalysis
