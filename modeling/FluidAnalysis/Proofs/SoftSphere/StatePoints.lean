import Mathlib
import FluidAnalysis.SoftSphere.SweepReport
import FluidAnalysis.Proofs.Decimal.Shortest
import FluidAnalysis.Proofs.Launch.SoftSphereFiles

/-!
# Files of state points

The names of the data files of a sweep are made from the labels of a density and a temperature. A
name can be cut into its labels again, since they have no underscore, and labels are read back. So
every state point has files of its own.

* `stem_inj` — the beginning of a name determines the state point
* `dataName_inj` — a name determines the plot and the state point
* `stem_determines_state` — two state points never share a file
-/

namespace FluidAnalysis.SoftSphere

open Files Report Decimal

/-! ## Names -/

theorem stem_toList (d t : Float) : (stem d t).toList
    = ("ff-".toList ++ (label d).toList) ++ '_' :: ("temp-".toList ++ (label t).toList) := by
  show ("ff-" ++ label d ++ "_temp-" ++ label t).toList = _
  simp

theorem stem_inj {d t d' t' : Float} (hd : d.isFinite = true) (ht : t.isFinite = true)
    (hd' : d'.isFinite = true) (ht' : t'.isFinite = true) (h : stem d t = stem d' t') :
    d = d' ∧ t = t' := by
  have hdensity : '_' ∉ "ff-".toList ++ (label d).toList := by
    simp [not_mem_label hd (c := '_') rfl (by decide) (by decide)]
  have htemperature : '_' ∉ "temp-".toList ++ (label t).toList := by
    simp [not_mem_label ht (c := '_') rfl (by decide) (by decide)]
  rw [← String.toList_inj, stem_toList, stem_toList,
    List.append_cons_inj_of_notMem hdensity htemperature] at h
  obtain ⟨hfirst, -, hsecond⟩ := h
  have hlabel := String.toList_inj.mp (List.append_cancel_left hfirst)
  have hlabel' := String.toList_inj.mp (List.append_cancel_left hsecond)
  exact ⟨label_inj hd hd' hlabel, label_inj ht ht' hlabel'⟩

/-- The name of the data of a state point. -/
def dataName (plot : Plot) (d t : Float) : String :=
  stem d t ++ "-" ++ plot.suffix ++ ".dat"

theorem dataPath_eq_join (request : Request) (plot : Plot) (d t : Float) :
    SweepReport.dataPath request plot d t = request.dataRoot.join (dataName plot d t) := rfl

/-- The last dash of a name stands before the plot, whatever the signs of the labels are. -/
theorem dataName_inj {plot plot' : Plot} {d t d' t' : Float}
    (h : dataName plot d t = dataName plot' d' t') : plot = plot' ∧ stem d t = stem d' t' := by
  have htext (p : Plot) (x y : Float) : (dataName p x y).toList
      = (stem x y).toList ++ '-' :: (p.suffix.toList ++ ".dat".toList) := by
    simp [dataName]
  have hdash (p : Plot) : '-' ∉ p.suffix.toList ++ ".dat".toList := by
    cases p <;> decide
  rw [← String.toList_inj, htext, htext] at h
  obtain ⟨hstem, hending⟩ := append_dash_inj (hdash plot) (hdash plot') h
  refine ⟨?_, String.toList_inj.mp hstem⟩
  have hsuffix := List.append_cancel_right hending
  cases plot <;> cases plot' <;> first | rfl | exact absurd hsuffix (by decide)

theorem slash_not_mem_dataName {plot : Plot} {d t : Float} (hd : d.isFinite = true)
    (ht : t.isFinite = true) : '/' ∉ (dataName plot d t).toList := by
  have hdensity := not_mem_label hd (c := '/') rfl (by decide) (by decide)
  have htemperature := not_mem_label ht (c := '/') rfl (by decide) (by decide)
  have hsuffix : '/' ∉ plot.suffix.toList := by
    cases plot <;> decide
  simp [dataName, stem_toList, hdensity, htemperature, hsuffix]

theorem isPlainName_dataName (plot : Plot) (d t : Float) : IsPlainName (dataName plot d t) := by
  apply isPlainName_of_lt_length
  rw [← String.length_toList, dataName, String.toList_append]
  simp
  omega

/-! ## Files -/

/-- **Two state points never share a file.** -/
theorem stem_determines_state :
    (∀ d t d' t' : Float, d.isFinite = true → t.isFinite = true → d'.isFinite = true →
      t'.isFinite = true →
      (stem d t = stem d' t' → d.toBits = d'.toBits ∧ t.toBits = t'.toBits) ∧
      ∀ (files : Tree) (request : Request) (plot plot' : Plot) (place : Place),
        files.locate (SweepReport.dataPath request plot d t) = .ok place →
        files.locate (SweepReport.dataPath request plot' d' t') = .ok place →
        plot = plot' ∧ d.toBits = d'.toBits ∧ t.toBits = t'.toBits) ∧
    ∀ x : Float, x.isFinite = true →
      '.' ∈ (label x).toList ∧ 'e' ∉ (label x).toList ∧ read? (label x) = some x := by
  refine ⟨fun d t d' t' hd ht hd' ht' => ?_, fun x hx => ?_⟩
  · have hbits (h : stem d t = stem d' t') : d.toBits = d'.toBits ∧ t.toBits = t'.toBits := by
      obtain ⟨rfl, rfl⟩ := stem_inj hd ht hd' ht' h
      exact ⟨rfl, rfl⟩
    refine ⟨hbits, fun files request plot plot' place hplace hplace' => ?_⟩
    rw [dataPath_eq_join] at hplace hplace'
    have hname := Tree.locate_join_inj (slash_not_mem_dataName hd ht)
      (slash_not_mem_dataName hd' ht') (isPlainName_dataName plot d t)
      (isPlainName_dataName plot' d' t') hplace hplace'
    obtain ⟨hplot, hstem⟩ := dataName_inj hname
    exact ⟨hplot, hbits hstem⟩
  · exact ⟨point_mem_label hx, not_mem_label hx rfl (by decide) (by decide), read?_label hx⟩

/-- A negative zero keeps its sign, behind the dash of the name. -/
theorem negative_zero_state :
    stem 1.1 (-0.0) = "ff-1.1_temp--0.0" ∧
    Tree.empty.locate (SweepReport.dataPath ⟨"sweep", .softSphere, "", "out"⟩ .pressure 1.1 (-0.0))
      = .ok ["ff-1.1_temp--0.0-press.dat"] ∧
    Float.toBits 1.1 = 0x3FF199999999999A ∧ Float.toBits (-0.0) = 0x8000000000000000 ∧
    '.' ∈ (label 1e22).toList ∧ 'e' ∉ (label 1e22).toList ∧ read? (label 1e22) = some 1e22 := by
  have hfile : Tree.empty.locate
      (SweepReport.dataPath ⟨"sweep", .softSphere, "", "out"⟩ .pressure 1.1 (-0.0))
      = .ok ["ff-1.1_temp--0.0-press.dat"] := by decide +kernel
  -- the same state point, given by its bits
  obtain ⟨hstem, hplace⟩ := stem_determines_state.1 1.1 (-0.0) (.ofBits 0x3FF199999999999A)
    (.ofBits 0x8000000000000000) (by decide) (by decide) (by decide) (by decide)
  have hdensity := (hstem (by decide)).1
  have htemperature := (hplace _ _ _ .pressure _ hfile (by decide +kernel)).2.2
  exact ⟨by decide, hfile, hdensity, htemperature, stem_determines_state.2 1e22 (by decide)⟩

end FluidAnalysis.SoftSphere
