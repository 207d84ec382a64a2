import Mathlib
import FluidAnalysis.Analysis
import FluidAnalysis.Proofs.Files.Components
import FluidAnalysis.Proofs.SquareWell.Courses

/-!
# Paths of histories

A convergence report writes the tables of a history into a directory that is named after the method,
and those of its second history into one with `-tm` behind that name. Methods are free text, so the
directory of one history can be that of another, also where their texts differ: `a` and `a//` are
the same directory.

* `ConvergenceReport.reported` — the histories that a run writes
* `ConvergenceReport.nodup_results_iff` — when all their tables have paths and places of their own
-/

namespace FluidAnalysis.SquareWell

open Files Report Session

namespace ConvergenceReport

variable (a : ConvergenceReport)

/-! ## Methods -/

theorem methodOf?_eq_some {name method : String} (h : a.methodOf? name = some method) :
    name = a.fileBase ++ "-" ++ method ++ movieEnding := by
  obtain ⟨rest, hrest, h⟩ := Option.bind_eq_some_iff.mp h
  obtain ⟨reversed, hreversed, h⟩ := Option.bind_eq_some_iff.mp h
  cases h
  have hbeginning := Text.after?_eq_some hrest
  have hending := congrArg List.reverse (Text.after?_eq_some hreversed)
  rw [List.reverse_reverse, List.reverse_append, List.reverse_reverse] at hending
  apply String.toList_inj.mp
  rw [hbeginning, hending]
  simp

theorem nodup_methodsIn {dataRoot : Path} {files : Tree} {methods : List String}
    (hfiles : (files.entries.map Prod.fst).Nodup) (h : a.methodsIn dataRoot files = .ok methods) :
    methods.Nodup := by
  unfold methodsIn at h
  split at h
  · cases h
    exact nodup_distinct a.methods
  · obtain ⟨names, hnames, h⟩ := bind_eq_ok_iff.mp h
    cases h
    refine ((nodup_matchingNames hfiles hnames).filter _).filterMap
      fun first second method hfirst hsecond => ?_
    rw [a.methodOf?_eq_some hfirst, a.methodOf?_eq_some hsecond]

/-! ## What a run notes -/

/-- The table with the errors at the tracked energy. -/
def energyFile : String :=
  "energy-" ++ toString a.energy ++ ".txt"

/-- The names of the two tables of a history. -/
def tableFiles : List Path :=
  [a.energyFile, "errors.txt"]

/-- The two tables of a history. -/
def historyTables (directory : Path) : List Path :=
  a.tableFiles.map directory.join

/-- The tables of a method: those of its history, and of the second one if it has one. -/
def methodTables (history : MethodHistory) : List Path :=
  a.historyTables (a.historyDirectory history.method) ++
    if history.fromTransitions.isSome then
      a.historyTables (a.historyDirectory (history.method ++ "-tm"))
    else []

theorem writeHistory_written {out : Output} {directory : Path} {history : ErrorHistory Float}
    {before after : State}
    (h : runFrom (a.writeHistory out directory history) before = (.ok (), after)) :
    after.written = before.written ++ a.historyTables directory := by
  obtain ⟨_, middle, hfirst, hsecond⟩ := runFrom_bind_eq_ok h
  rw [written_columns hsecond, written_columns hfirst, List.append_assoc]
  rfl

theorem compareMethod_method {dataRoot : Path} {files : Tree} {reference : Reference}
    {method : String} {history : MethodHistory}
    (h : a.compareMethod dataRoot files reference method = .ok (some history)) :
    history.method = method := by
  dsimp only [compareMethod] at h
  split at h
  · cases h
  · obtain ⟨names, -, h⟩ := bind_eq_ok_iff.mp h
    split at h
    · cases h
    · obtain ⟨rows, -, h⟩ := bind_eq_ok_iff.mp h
      obtain ⟨scores, -, h⟩ := bind_eq_ok_iff.mp h
      cases h
      rfl

/-- What a method adds to the results: nothing, or its tables. -/
theorem writeMethod_written {out : Output} {reference : Reference} {method : String}
    {before after : State}
    (h : runFrom (a.writeMethod out reference method) before = (.ok (), after)) :
    ∃ found, a.compareMethod out.request.dataRoot before.files reference method = .ok found ∧
      after.written = before.written ++ found.toList.flatMap a.methodTables := by
  obtain ⟨found, hfound, h⟩ := runFrom_ask_bind_eq_ok h
  refine ⟨found, hfound, ?_⟩
  cases found with
  | none =>
    cases h
    exact (List.append_nil _).symm
  | some history =>
    obtain ⟨_, middle, hdirect, h⟩ := runFrom_bind_eq_ok h
    have hmiddle := a.writeHistory_written hdirect
    rw [← a.compareMethod_method hfound] at hmiddle h
    rw [Option.toList_some, List.flatMap_singleton, methodTables, ← List.append_assoc, ← hmiddle]
    cases hsecond : history.fromTransitions with
    | none =>
      rw [hsecond] at h
      cases h
      exact (List.append_nil _).symm
    | some second =>
      rw [hsecond] at h
      exact a.writeHistory_written h

/-- The histories of a list of methods, each as it is found after the ones before it have been
written. -/
def reported (out : Output) (reference : Reference) : State → List String → List MethodHistory
  | _, [] => []
  | state, method :: rest =>
    let found := a.compareMethod out.request.dataRoot state.files reference method
    found.toOption.join.toList ++
      reported out reference (runFrom (a.writeMethod out reference method) state).2 rest

theorem forM_written {out : Output} {reference : Reference} {methods : List String}
    {before after : State}
    (h : runFrom (methods.forM (a.writeMethod out reference)) before = (.ok (), after)) :
    after.written
      = before.written ++ (a.reported out reference before methods).flatMap a.methodTables := by
  induction methods generalizing before with
  | nil =>
    cases h
    exact (List.append_nil _).symm
  | cons method rest ih =>
    change runFrom (a.writeMethod out reference method >>= fun _ =>
      rest.forM (a.writeMethod out reference)) before = _ at h
    obtain ⟨_, middle, hmethod, h⟩ := runFrom_bind_eq_ok h
    obtain ⟨found, hfound, hmiddle⟩ := a.writeMethod_written hmethod
    rw [reported, List.flatMap_append, ← List.append_assoc, hfound, hmethod, ih h, hmiddle]
    rfl

theorem methods_reported (out : Output) (reference : Reference) (state : State)
    (methods : List String) :
    ((a.reported out reference state methods).map (·.method)).Sublist methods := by
  induction methods generalizing state with
  | nil => exact .refl _
  | cons method rest ih =>
    rw [reported, List.map_append, ← List.singleton_append]
    refine .append ?_ (ih _)
    cases hfound : a.compareMethod out.request.dataRoot state.files reference method with
    | error failure => exact List.nil_sublist _
    | ok found =>
      cases found with
      | none => exact List.nil_sublist _
      | some history =>
        rw [← a.compareMethod_method hfound]
        exact .refl _

/-- The tables that a run notes are those of the histories that it reports. -/
theorem execute_written {out : Output} {files : Tree} {after : State}
    (h : runFrom (a.execute out) { files := files } = (.ok (), after)) :
    ∃ source reference methods,
      loadSource files (out.request.dataPath a.reference) 2 = .ok source ∧
      Reference.ofSource source.text source.table = .ok reference ∧
      a.methodsIn out.request.dataRoot files = .ok methods ∧
      after.written
        = (a.reported out reference { files := files } methods).flatMap a.methodTables := by
  obtain ⟨_, -, h⟩ := runFrom_ask_bind_eq_ok h
  obtain ⟨source, hsource, h⟩ := runFrom_ask_bind_eq_ok h
  obtain ⟨reference, hreference, h⟩ := runFrom_ask_bind_eq_ok h
  obtain ⟨methods, hmethods, h⟩ := runFrom_ask_bind_eq_ok h
  exact ⟨source, reference, methods, hsource, hreference, hmethods, a.forM_written h⟩

/-! ## Paths of tables -/

/-- What the paths of all histories of a report start with. -/
def historyStem : Path :=
  (if Path.isAbsolute (a.fileBase ++ "-") then "" else "comparison/") ++ a.fileBase ++ "-"

theorem historyDirectory_eq (name : String) : a.historyDirectory name = a.historyStem ++ name := by
  -- the name stands behind a dash, so it does not decide whether the path is absolute
  have habsolute :
      Path.isAbsolute (a.fileBase ++ "-" ++ name) = Path.isAbsolute (a.fileBase ++ "-") := by
    unfold Path.isAbsolute
    cases h : a.fileBase.toList <;> simp [h]
  change Path.join "comparison" (a.fileBase ++ "-" ++ name) = _
  rw [historyStem, Path.join, habsolute]
  cases Path.isAbsolute (a.fileBase ++ "-") with
  | true => simp
  | false => simp [String.append_assoc]

theorem endsInName_historyStem : a.historyStem.EndsInName :=
  ⟨'-', by simp [historyStem], by decide, by decide⟩

theorem slash_not_mem_energyFile : '/' ∉ a.energyFile.toList := by
  have hdigits : ∀ n : Nat, '/' ∉ n.repr.toList := by
    intro n hmem
    rw [Nat.toList_repr] at hmem
    exact absurd (Nat.isDigit_of_mem_toDigits (by decide) (by decide) hmem) (by decide)
  have hnumber : '/' ∉ (toString a.energy).toList := by
    cases a.energy with
    | ofNat n => exact hdigits n
    | negSucc n =>
      change '/' ∉ ("-" ++ (n + 1).repr).toList
      simpa using hdigits (n + 1)
  simpa [energyFile] using hnumber

theorem energyFile_ne_errors : a.energyFile ≠ "errors.txt" := by
  intro h
  have hchar := congrArg (fun text => text.toList[1]?) h
  simp [energyFile] at hchar

theorem nodup_tableFiles : a.tableFiles.Nodup := by
  have hne := a.energyFile_ne_errors
  simpa [tableFiles] using hne

theorem slash_not_mem_tableFiles {file : Path} (h : file ∈ a.tableFiles) : '/' ∉ file.toList := by
  have hall : ∀ file ∈ a.tableFiles, '/' ∉ file.toList := by
    simpa [tableFiles] using a.slash_not_mem_energyFile
  exact hall file h

theorem isPlainName_tableFiles {file : Path} (h : file ∈ a.tableFiles) : IsPlainName file := by
  have hall : ∀ file ∈ a.tableFiles, 'e' ∈ file.toList := by
    simp [tableFiles, energyFile]
  exact isPlainName_of_mem (hall file h) (by decide)

/-- What stands behind the stem in the path of a table continues it by the name of the history, and
by that of the table. -/
theorem exists_table_text (name : String) {file : Path} (h : file ∈ a.tableFiles) :
    ∃ text, (a.historyDirectory name).join file = a.historyStem ++ text ∧
      Path.continuation text = Path.continuation name ++ [file] := by
  have hslash := a.slash_not_mem_tableFiles h
  obtain ⟨text, hjoin, htext⟩ := Path.exists_join_append a.endsInName_historyStem name
    (Path.isAbsolute_of_not_mem hslash)
  rw [Path.pieces_of_not_mem hslash,
    List.filter_cons_of_pos (a.isPlainName_tableFiles h).isName] at htext
  exact ⟨text, by rw [historyDirectory_eq, hjoin], htext⟩

/-- Tables have the same path exactly if their names and those of their histories agree. -/
theorem components_table_eq_iff {name name' : String} {file file' : Path}
    (h : file ∈ a.tableFiles) (h' : file' ∈ a.tableFiles) :
    ((a.historyDirectory name).join file).components
        = ((a.historyDirectory name').join file').components ↔
      Path.continuation name = Path.continuation name' ∧ file = file' := by
  obtain ⟨text, hpath, htext⟩ := a.exists_table_text name h
  obtain ⟨text', hpath', htext'⟩ := a.exists_table_text name' h'
  rw [hpath, hpath', Path.components_append_inj a.endsInName_historyStem, htext, htext']
  constructor
  · intro heq
    obtain ⟨hname, hfile⟩ := List.append_inj' heq rfl
    exact ⟨hname, List.cons.inj hfile |>.1⟩
  · rintro ⟨hname, rfl⟩
    rw [hname]

/-! ## Sharing -/

/-- What the directories of the histories of a method are named after. -/
def historyNames (history : MethodHistory) : List String :=
  history.method :: if history.fromTransitions.isSome then [history.method ++ "-tm"] else []

theorem mem_historyNames_iff {history : MethodHistory} {name : String} :
    name ∈ historyNames history ↔ name = history.method ∨
      history.fromTransitions.isSome ∧ name = history.method ++ "-tm" := by
  unfold historyNames
  cases history.fromTransitions.isSome <;> simp

theorem methodTables_eq (history : MethodHistory) : a.methodTables history
    = (historyNames history).flatMap fun name => a.historyTables (a.historyDirectory name) := by
  unfold methodTables historyNames
  split <;> simp

/-- One history of the first method goes where the first history of the second method goes. The
methods are different texts that continue the path of a directory alike, or the second method
continues it like the first one does with `-tm` behind it. -/
def Shares (first second : MethodHistory) : Prop :=
  (first.method ≠ second.method ∧
      Path.continuation first.method = Path.continuation second.method) ∨
    (first.fromTransitions.isSome ∧
      Path.continuation (first.method ++ "-tm") = Path.continuation second.method)

theorem completesName_second : Path.CompletesName "-tm" :=
  ⟨by decide, '-', by decide, by decide⟩

theorem not_shares_self (history : MethodHistory) : ¬ Shares history history := by
  rintro (⟨h, -⟩ | ⟨-, h⟩)
  · exact h rfl
  · exact Path.continuation_append_name_ne _ completesName_second h

/-- Methods with different names share no directory, unless they are named as `Shares` tells. -/
theorem continuation_ne_iff {first second : MethodHistory} (hne : first.method ≠ second.method) :
    (∀ name ∈ historyNames first, ∀ name' ∈ historyNames second,
        Path.continuation name ≠ Path.continuation name') ↔
      ¬ Shares first second ∧ ¬ Shares second first := by
  constructor
  · intro h
    have hmethod {history : MethodHistory} : history.method ∈ historyNames history :=
      mem_historyNames_iff.mpr (.inl rfl)
    have hsecond {history : MethodHistory} (hsome : history.fromTransitions.isSome) :
        history.method ++ "-tm" ∈ historyNames history :=
      mem_historyNames_iff.mpr (.inr ⟨hsome, rfl⟩)
    refine ⟨?_, ?_⟩
    · rintro (⟨-, heq⟩ | ⟨hsome, heq⟩)
      · exact h _ hmethod _ hmethod heq
      · exact h _ (hsecond hsome) _ hmethod heq
    · rintro (⟨-, heq⟩ | ⟨hsome, heq⟩)
      · exact h _ hmethod _ hmethod heq.symm
      · exact h _ hmethod _ (hsecond hsome) heq.symm
  · rintro ⟨hfirst, hsecond⟩ name hname name' hname' heq
    rcases mem_historyNames_iff.mp hname with rfl | ⟨hsome, rfl⟩
    · rcases mem_historyNames_iff.mp hname' with rfl | ⟨hsome', rfl⟩
      · exact hfirst (.inl ⟨hne, heq⟩)
      · exact hsecond (.inr ⟨hsome', heq.symm⟩)
    · rcases mem_historyNames_iff.mp hname' with rfl | ⟨-, rfl⟩
      · exact hfirst (.inr ⟨hsome, heq⟩)
      · exact hfirst (.inl ⟨hne, Path.continuation_of_append_name completesName_second heq⟩)

theorem pairwise_historyNames (history : MethodHistory) : (historyNames history).Pairwise
    fun name name' => Path.continuation name ≠ Path.continuation name' := by
  unfold historyNames
  split
  · simpa using (Path.continuation_append_name_ne history.method completesName_second).symm
  · exact List.pairwise_singleton _ _

/-- Tables have paths of their own as soon as the names of their histories tell them apart. -/
theorem nodup_components_iff {histories : List MethodHistory} :
    ((histories.flatMap a.methodTables).map Path.components).Nodup ↔
      (histories.flatMap historyNames).Pairwise
        fun name name' => Path.continuation name ≠ Path.continuation name' := by
  have hflat : (histories.flatMap a.methodTables).map Path.components
      = (histories.flatMap historyNames).flatMap fun name =>
          (a.historyTables (a.historyDirectory name)).map Path.components := by
    rw [List.flatMap_assoc, List.map_flatMap]
    refine congrArg (histories.flatMap ·) (funext fun history => ?_)
    rw [a.methodTables_eq, List.map_flatMap]
  have hown (name : String) :
      ((a.historyTables (a.historyDirectory name)).map Path.components).Nodup := by
    rw [historyTables, List.map_map]
    refine a.nodup_tableFiles.map_on fun file h file' h' heq => ?_
    exact ((a.components_table_eq_iff h h').mp heq).2
  rw [hflat, List.nodup_flatMap, and_iff_right fun name _ => hown name]
  refine List.Pairwise.iff fun {name name'} => ?_
  constructor
  · intro hdisjoint heq
    have hfile : a.energyFile ∈ a.tableFiles := List.mem_cons_self
    have hsame := (a.components_table_eq_iff hfile hfile).mpr ⟨heq, rfl⟩
    exact hdisjoint (List.mem_map_of_mem (List.mem_map_of_mem hfile))
      (hsame ▸ List.mem_map_of_mem (List.mem_map_of_mem hfile))
  · intro hne components hmem hmem'
    obtain ⟨_, hpath, rfl⟩ := List.mem_map.mp hmem
    obtain ⟨file, h, rfl⟩ := List.mem_map.mp hpath
    obtain ⟨_, hpath', heq⟩ := List.mem_map.mp hmem'
    obtain ⟨file', h', rfl⟩ := List.mem_map.mp hpath'
    exact hne ((a.components_table_eq_iff h h').mp heq.symm).1

theorem pairwise_continuation_iff {histories : List MethodHistory}
    (hdistinct : (histories.map (·.method)).Nodup) :
    ((histories.flatMap historyNames).Pairwise
        fun name name' => Path.continuation name ≠ Path.continuation name') ↔
      ∀ first ∈ histories, ∀ second ∈ histories, ¬ Shares first second := by
  rw [List.pairwise_flatMap, and_iff_right fun history _ => pairwise_historyNames history]
  have hmethods : histories.Pairwise fun first second => first.method ≠ second.method :=
    List.pairwise_map.mp hdistinct
  constructor
  · intro hpairs
    have hboth : histories.Pairwise fun first second =>
        ¬ Shares first second ∧ ¬ Shares second first :=
      (hpairs.and hmethods).imp fun h => (continuation_ne_iff h.2).mp h.1
    -- sharing has a direction, and the pairs of a list come in one order only
    have : Std.Symm fun first second => ¬ Shares first second ∧ ¬ Shares second first :=
      ⟨fun _ _ => And.symm⟩
    intro first hfirst second hsecond
    exact (hboth.forall_of_forall
      (fun history _ => ⟨not_shares_self history, not_shares_self history⟩) hfirst hsecond).1
  · intro h
    refine hmethods.imp_of_mem fun hfirst hsecond hne => ?_
    exact (continuation_ne_iff hne).mpr ⟨h _ hfirst _ hsecond, h _ hsecond _ hfirst⟩

/-! ## Places of tables -/

/-- A table of a method that does not lead back continues the stem by names that do not. -/
theorem exists_text_of_mem {history : MethodHistory} (hdots : ".." ∉ Path.pieces history.method)
    {path : Path} (h : path ∈ a.methodTables history) :
    ∃ text, path = a.historyStem ++ text ∧ ".." ∉ Path.continuation text := by
  rw [methodTables_eq] at h
  obtain ⟨name, hname, h⟩ := List.mem_flatMap.mp h
  obtain ⟨file, hfile, rfl⟩ := List.mem_map.mp h
  obtain ⟨text, hpath, htext⟩ := a.exists_table_text name hfile
  have hnames : ".." ∉ Path.continuation name := by
    rcases mem_historyNames_iff.mp hname with rfl | ⟨-, rfl⟩
    · exact fun hmem => hdots (Path.mem_of_mem_headed hmem)
    · rw [Path.continuation_append_name _ completesName_second, List.mem_append, not_or,
        List.mem_singleton]
      exact ⟨fun hmem => hdots (List.mem_of_mem_dropLast (Path.mem_of_mem_headed hmem)),
        (completesName_second.isPlainName _).2.2.symm⟩
  refine ⟨text, hpath, ?_⟩
  rw [htext, List.mem_append, not_or, List.mem_singleton]
  exact ⟨hnames, (a.isPlainName_tableFiles hfile).2.2.symm⟩

/-- Paths with the same beginning that lead to one place are the same, if they do not lead back. -/
theorem components_of_locate {tree : Tree} {out : Output} {text text' : String} {place : Place}
    (hdots : ".." ∉ Path.continuation text) (hdots' : ".." ∉ Path.continuation text')
    (h : tree.locate (out.request.outputPath (a.historyStem ++ text)) = .ok place)
    (h' : tree.locate (out.request.outputPath (a.historyStem ++ text')) = .ok place) :
    (a.historyStem ++ text : Path).components = (a.historyStem ++ text' : Path).components := by
  have hstem := a.endsInName_historyStem
  unfold Report.Request.outputPath at h h'
  rw [Path.join_append _ hstem.ne_empty] at h h'
  refine (Path.components_append_inj hstem).mpr ?_
  exact Tree.locate_append_inj (hstem.join _) (fun hmem => hdots (List.mem_of_mem_tail hmem))
    (fun hmem => hdots' (List.mem_of_mem_tail hmem)) h h'

/-- **When the tables of a run have paths of their own.** The results of a run are the tables of the
histories that it reports. The methods are distinct, and still two tables have the same path as soon
as two methods are written differently and name the same directory, or one method has a second
history and another method names its directory. If no method leads back, tables with paths of their
own are at different places of every tree. -/
theorem nodup_results_iff (out : Output) (files after : Tree) (paths : List Path)
    (hfiles : (files.entries.map Prod.fst).Nodup)
    (h : (Analysis.convergence a).run out files = (.ok paths, after)) :
    ∃ source reference methods,
      loadSource files (out.request.dataPath a.reference) 2 = .ok source ∧
      Reference.ofSource source.text source.table = .ok reference ∧
      a.methodsIn out.request.dataRoot files = .ok methods ∧ methods.Nodup ∧
      paths = (a.reported out reference { files := files } methods).flatMap a.methodTables ∧
      ((paths.map Path.components).Nodup ↔
        ∀ first ∈ a.reported out reference { files := files } methods,
        ∀ second ∈ a.reported out reference { files := files } methods,
          ¬ Shares first second) ∧
      ((paths.map Path.components).Nodup →
        (∀ history ∈ a.reported out reference { files := files } methods,
          ".." ∉ Path.pieces history.method) →
        ∀ tree : Tree, paths.Pairwise fun one other => ∀ place,
          tree.locate (out.request.outputPath one) = .ok place →
            tree.locate (out.request.outputPath other) ≠ .ok place) := by
  obtain ⟨state, hrun, rfl, -⟩ := run_eq_ok h
  obtain ⟨source, reference, methods, hsource, hreference, hmethods, hpaths⟩ :=
    a.execute_written hrun
  have hnodup := a.nodup_methodsIn hfiles hmethods
  have hdistinct := (a.methods_reported out reference { files := files } methods).nodup hnodup
  refine ⟨source, reference, methods, hsource, hreference, hmethods, hnodup, hpaths, ?_, ?_⟩
  · rw [hpaths]
    exact a.nodup_components_iff.trans (pairwise_continuation_iff hdistinct)
  · intro hcomponents hdots tree
    have htext {path : Path} (hpath : path ∈ state.written) :
        ∃ text, path = a.historyStem ++ text ∧ ".." ∉ Path.continuation text := by
      rw [hpaths] at hpath
      obtain ⟨history, hhistory, hpath⟩ := List.mem_flatMap.mp hpath
      exact a.exists_text_of_mem (hdots history hhistory) hpath
    refine (List.pairwise_map.mp hcomponents).imp_of_mem fun hone hother hne place h h' => ?_
    obtain ⟨text, rfl, hback⟩ := htext hone
    obtain ⟨text', rfl, hback'⟩ := htext hother
    exact hne (a.components_of_locate hback hback' h h')

/-! ## A method named like a directory -/

/-- Names sorted by insertion, which the kernel can evaluate. -/
theorem matchingNames_eq_insertionSort : matchingNames = fun files directory pattern =>
    match Pattern.read pattern with
    | .error fault => .error (.badPattern pattern fault.message)
    | .ok matcher =>
      match files.names directory with
      | .error cause => .error (.unlistable directory cause)
      | .ok names => .ok ((names.filter matcher.isMatch).insertionSort (· ≤ ·)) := by
  funext files directory pattern
  unfold matchingNames
  cases Pattern.read pattern with
  | error fault => rfl
  | ok matcher =>
    cases files.names directory with
    | error cause => rfl
    | ok names => exact congrArg Except.ok (List.mergeSort_eq_insertionSort (· ≤ ·) _)

/-- The frame of `a` has a second estimate, which goes to the directory of `a-tm`. -/
def overlapTree : Tree :=
  ⟨[(["data"], .directory),
    (["data", "ref.dat"],
      .file "# max_entropy_state: 1\n# min_important_energy: 1\n-1 1\n".toUTF8),
    (["data", "s000-a-movie"], .directory),
    (["data", "s000-a-movie", "000001-lndos.dat"], .file "# iterations: 100\n-1 1 11 1\n".toUTF8),
    (["data", "s000-a-tm-movie"], .directory),
    (["data", "s000-a-tm-movie", "000001-lndos.dat"], .file "# iterations: 200\n-1 1 21\n".toUTF8)]⟩

def overlapReport : ConvergenceReport :=
  { energy := 1, reference := "ref.dat", fileBase := "s000", methods := ["a", "a-tm"] }

def overlapOutput : Output :=
  ⟨⟨"frames", .convergence, "data", "figs"⟩, {}⟩

def overlapPaths : List Path :=
  ["comparison/s000-a/energy-1.txt", "comparison/s000-a/errors.txt",
    "comparison/s000-a-tm/energy-1.txt", "comparison/s000-a-tm/errors.txt",
    "comparison/s000-a-tm/energy-1.txt", "comparison/s000-a-tm/errors.txt"]

theorem run_overlapReport :
    ((Analysis.convergence overlapReport).run overlapOutput overlapTree).1.toOption
      = some overlapPaths := by
  delta Analysis.run Analysis.execute
  dsimp only
  delta execute methodsIn writeMethod compareMethod
  rw [matchingNames_eq_insertionSort]
  decide +kernel

/-- The run succeeds, and the tables of `a-tm` replace those of the second history of `a`. -/
theorem overlapReport_shares_paths :
    (overlapTree.entries.map Prod.fst).Nodup ∧
    ∃ after,
      (Analysis.convergence overlapReport).run overlapOutput overlapTree
        = (.ok overlapPaths, after) ∧
      ¬ (overlapPaths.map Path.components).Nodup ∧
      ∃ reference methods, methods.Nodup ∧
        ∃ first ∈ overlapReport.reported overlapOutput reference { files := overlapTree } methods,
        ∃ second ∈ overlapReport.reported overlapOutput reference { files := overlapTree } methods,
          Shares first second := by
  have hentries : (overlapTree.entries.map Prod.fst).Nodup := by decide
  have hrun := pair_eq_of_toOption run_overlapReport
  have hrepeated : ¬ (overlapPaths.map Path.components).Nodup := by decide
  obtain ⟨_, reference, methods, -, -, -, hmethods, -, hiff, -⟩ :=
    overlapReport.nodup_results_iff overlapOutput overlapTree _ _ hentries hrun
  refine ⟨hentries, _, hrun, hrepeated, reference, methods, hmethods, ?_⟩
  by_contra hnone
  refine hrepeated (hiff.mpr fun first hfirst second hsecond hshares => ?_)
  exact hnone ⟨first, hfirst, second, hsecond, hshares⟩

end ConvergenceReport

end FluidAnalysis.SquareWell
