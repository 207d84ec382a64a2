import FluidAnalysis.Proofs.Table.RoundTrip
import FluidAnalysis.Proofs.Traversal
import FluidAnalysis.Report.Session

/-!
# Courses of sessions

What a session can do, said once for all analyses: it stores results one after the other, and ends
because it is done, because it refuses to go on, or because a result cannot be stored. Every
property of a whole run is an induction on its course.

* `Course` — the course of a session
* `Session.Orderly` — a session that always takes such a course, and how such sessions are composed
* `Session.Prepared` — a session that refuses before it stores anything
-/

namespace FluidAnalysis.Report

open Files

/-! ## Sessions as functions of the state -/

namespace Session

variable {β γ : Type}

/-- What a session does from a state: its outcome, and the state that it leaves. -/
def runFrom (session : Session β) (before : State) : Except Failure β × State :=
  (ExceptT.run session).run before

theorem runFrom_pure (value : β) (before : State) :
    runFrom (pure value) before = (.ok value, before) :=
  rfl

theorem runFrom_throw (failure : Failure) (before : State) :
    runFrom (throw failure : Session β) before = (.error failure, before) :=
  rfl

theorem runFrom_get (before : State) :
    runFrom (get : Session State) before = (.ok before, before) :=
  rfl

theorem runFrom_set (before after : State) :
    runFrom (set after : Session PUnit) before = (.ok ⟨⟩, after) :=
  rfl

theorem runFrom_bind (session : Session β) (next : β → Session γ) (before : State) :
    runFrom (session >>= next) before =
      match runFrom session before with
      | (.ok value, after) => runFrom (next value) after
      | (.error failure, after) => (.error failure, after) := by
  unfold runFrom
  rw [ExceptT.run_bind]
  simp only [StateT.run_bind]
  rcases h : StateT.run (ExceptT.run session) before with ⟨outcome, after⟩
  cases outcome <;> rfl

theorem runFrom_ask (question : Tree → Except Failure β) (before : State) :
    runFrom (ask question) before = (question before.files, before) := by
  unfold ask
  rw [runFrom_bind, runFrom_get]
  dsimp only
  cases question before.files with
  | error failure => exact runFrom_throw failure before
  | ok answer => exact runFrom_pure answer before

theorem runFrom_act (action : Tree → Except Failure β × Tree) (before : State) :
    runFrom (act action) before =
      ((action before.files).1, { before with files := (action before.files).2 }) := by
  unfold act
  rw [runFrom_bind, runFrom_get]
  dsimp only
  rw [runFrom_bind, runFrom_set]
  cases (action before.files).1 with
  | error failure => exact runFrom_throw failure _
  | ok answer => exact runFrom_pure answer _

theorem runFrom_record (out : Output) (relative : Path) (before : State) :
    runFrom (record out relative) before =
      (.ok (out.request.outputPath relative),
        { before with written := before.written ++ [relative] }) :=
  rfl

theorem runFrom_write (medium : Medium) (path : Path) (content : String) (before : State) :
    runFrom (write medium path content) before =
      ((medium.store before.files path content).1,
        { before with
          files := (medium.store before.files path content).2
          log := before.log ++ [(path, content)] }) := by
  have hmodify : runFrom (modify fun state => { state with log := state.log ++ [(path, content)] })
      before = (.ok ⟨⟩, { before with log := before.log ++ [(path, content)] }) := rfl
  unfold write
  rw [runFrom_bind, hmodify]
  simp only [runFrom_act]

theorem runFrom_bind_eq_ok {session : Session β} {next : β → Session γ} {before after : State}
    {value : γ} (h : runFrom (session >>= next) before = (.ok value, after)) :
    ∃ first middle, runFrom session before = (.ok first, middle) ∧
      runFrom (next first) middle = (.ok value, after) := by
  rw [runFrom_bind] at h
  rcases hfirst : runFrom session before with ⟨outcome, middle⟩
  rw [hfirst] at h
  cases outcome with
  | error failure => cases h
  | ok first => exact ⟨first, middle, rfl, h⟩

theorem runFrom_ask_bind_eq_ok {question : Tree → Except Failure β} {next : β → Session γ}
    {before after : State} {value : γ}
    (h : runFrom (ask question >>= next) before = (.ok value, after)) :
    ∃ answer, question before.files = .ok answer ∧
      runFrom (next answer) before = (.ok value, after) := by
  obtain ⟨answer, middle, hask, h⟩ := runFrom_bind_eq_ok h
  rw [runFrom_ask] at hask
  cases congrArg Prod.snd hask
  exact ⟨answer, congrArg Prod.fst hask, h⟩

/-- A result is noted, whether it can be stored or not. -/
theorem written_columns {out : Output} {relative : Path} {values : List (List Float)}
    {format : Table.ColumnFormat} {before after : State} {outcome : Except Failure Unit}
    (h : runFrom (columns out relative values format) before = (outcome, after)) :
    after.written = before.written ++ [relative] := by
  unfold columns at h
  rw [runFrom_bind, runFrom_record] at h
  simp only [runFrom_bind, runFrom_ask] at h
  cases hrender : Table.renderColumns values format with
  | error failure =>
    rw [hrender] at h
    exact congrArg (fun answer => answer.2.written) h.symm
  | ok content =>
    rw [hrender] at h
    simp only [runFrom_write] at h
    exact congrArg (fun answer => answer.2.written) h.symm

theorem written_panel {out : Output} {relative : Path} {figure : Figure.Panel Float}
    {before after : State} {outcome : Except Failure Unit}
    (h : runFrom (panel out relative figure) before = (outcome, after)) :
    after.written = before.written ++ [relative] := by
  unfold panel panels at h
  rw [runFrom_bind, runFrom_record] at h
  simp only [runFrom_write] at h
  exact congrArg (fun answer => answer.2.written) h.symm

theorem run_eq_ok {session : Session Unit} {files after : Tree} {paths : List Path}
    (h : run session files = (.ok paths, after)) :
    ∃ state : State, runFrom session { files := files } = (.ok (), state) ∧
      state.written = paths ∧ state.files = after := by
  unfold run at h
  rcases hrun : runFrom session { files := files } with ⟨outcome, state⟩
  unfold runFrom at hrun
  rw [hrun] at h
  cases outcome with
  | error failure => cases h
  | ok value =>
    cases h
    exact ⟨state, rfl, rfl, rfl⟩

theorem run_eq_error {session : Session Unit} {files after : Tree} {failure : Failure}
    (h : run session files = (.error failure, after)) :
    ∃ state : State, runFrom session { files := files } = (.error failure, state) ∧
      state.files = after := by
  unfold run at h
  rcases hrun : runFrom session { files := files } with ⟨outcome, state⟩
  unfold runFrom at hrun
  rw [hrun] at h
  cases outcome with
  | error failure =>
    cases h
    exact ⟨state, rfl, rfl⟩
  | ok value => cases h

end Session

/-! ## Storing one result -/

/-- The codes of failures to store a result. -/
def storeCodes : List String :=
  ["IO.OUTPUT_DIRECTORY", "IO.ARTIFACT_WRITE", "IO.FIGURE_WRITE"]

theorem store_eq_error {noDirectory noFile : Path → Cause → Failure} {files next : Tree}
    {path : Path} {content : String} {failure : Failure}
    (h : store noDirectory noFile files path content = (.error failure, next)) :
    (∃ parent cause, failure = noDirectory parent cause) ∨
      ∃ cause, failure = noFile path cause := by
  unfold store at h
  split at h
  · next hparent =>
    cases h
    unfold makeParent at hparent
    split at hparent
    · cases hparent
    · split at hparent
      · cases hparent
      · cases hparent
        exact .inl ⟨_, _, rfl⟩
  · split at h
    · cases h
    · cases h
      exact .inr ⟨_, rfl⟩

theorem Medium.code_mem_storeCodes {medium : Medium} {files next : Tree} {path : Path}
    {content : String} {failure : Failure}
    (h : medium.store files path content = (.error failure, next)) : failure.code ∈ storeCodes := by
  rw [← List.elem_iff]
  cases medium with
  | text => rcases store_eq_error h with ⟨parent, cause, rfl⟩ | ⟨cause, rfl⟩ <;> rfl
  | figure => rcases store_eq_error h with ⟨parent, cause, rfl⟩ | ⟨cause, rfl⟩ <;> rfl

/-- One result is stored, or cannot be stored. In both cases it has been noted and logged. -/
def Stores (out : Session.Output) (relative : Path) (before : State)
    (outcome : Except Failure Unit) (after : State) : Prop :=
  ∃ (medium : Medium) (content : String),
    medium.store before.files (out.request.outputPath relative) content = (outcome, after.files) ∧
    after.written = before.written ++ [relative] ∧
    after.log = before.log ++ [(out.request.outputPath relative, content)]

/-! ## Courses -/

/-- The course of a session: results are stored one after the other, until the session is done,
refuses to go on, or cannot store a result. `refuses` tells the refusals that occur. -/
inductive Course (out : Session.Output) (refuses : Failure → Prop) :
    State → Except Failure Unit → State → Prop
  | done (state : State) : Course out refuses state (.ok ()) state
  | refused (state : State) {failure : Failure} (h : refuses failure) :
      Course out refuses state (.error failure) state
  | stored {before next after : State} {relative : Path} {outcome : Except Failure Unit}
      (h : Stores out relative before (.ok ()) next)
      (rest : Course out refuses next outcome after) :
      Course out refuses before outcome after
  | notStored {before after : State} {relative : Path} {failure : Failure}
      (h : Stores out relative before (.error failure) after) :
      Course out refuses before (.error failure) after

namespace Course

variable {out : Session.Output} {refuses refuses' : Failure → Prop} {before next after : State}
  {outcome : Except Failure Unit}

theorem append (h : Course out refuses before (.ok ()) next)
    (h' : Course out refuses next outcome after) : Course out refuses before outcome after := by
  -- the first course ends well, which rules out two of its endings
  generalize hdone : Except.ok () = first at h
  induction h with
  | done => exact h'
  | refused => cases hdone
  | stored hstored _ ih => exact .stored hstored (ih h' hdone)
  | notStored => cases hdone

theorem mono (hrefuses : ∀ failure, refuses failure → refuses' failure)
    (h : Course out refuses before outcome after) : Course out refuses' before outcome after := by
  induction h with
  | done => exact .done _
  | refused _ hfailure => exact .refused _ (hrefuses _ hfailure)
  | stored hstored _ ih => exact .stored hstored ih
  | notStored hstored => exact .notStored hstored

/-- A course fails by a refusal or by a result that cannot be stored. -/
theorem eq_error {failure : Failure} (h : Course out refuses before (.error failure) after) :
    refuses failure ∨ failure.code ∈ storeCodes := by
  generalize hfailed : Except.error failure = outcome at h
  induction h with
  | done => cases hfailed
  | refused _ hfailure =>
    cases hfailed
    exact .inl hfailure
  | stored _ _ ih => exact ih hfailed
  | notStored hstored =>
    cases hfailed
    obtain ⟨medium, content, hstore, -⟩ := hstored
    exact .inr (Medium.code_mem_storeCodes hstore)

end Course

/-! ## Orderly sessions -/

/-- Failures of a computation are among the refusals. -/
def RefusesOnly {β : Type} (refuses : Failure → Prop) (x : Except Failure β) : Prop :=
  ∀ failure, x = .error failure → refuses failure

namespace Session

variable {β γ : Type} {out : Output} {refuses : Failure → Prop}

/-- A session that does nothing but store results and refuse to go on. -/
def Orderly (out : Output) (refuses : Failure → Prop) (session : Session β) : Prop :=
  ∀ before, Course out refuses before ((runFrom session before).1.map fun _ => ())
    (runFrom session before).2

namespace Orderly

theorem pure (value : β) : Orderly out refuses (pure value : Session β) :=
  fun before => .done before

theorem throw {failure : Failure} (h : refuses failure) :
    Orderly out refuses (throw failure : Session β) :=
  fun before => .refused before h

theorem ask {question : Tree → Except Failure β}
    (h : ∀ files, RefusesOnly refuses (question files)) :
    Orderly out refuses (ask question) := by
  intro before
  rw [runFrom_ask]
  cases hanswer : question before.files with
  | error failure => exact .refused before (h _ failure hanswer)
  | ok answer => exact .done before

/-- The second session has to be orderly for the values only that the first one returns. -/
theorem bind_of_value {session : Session β} {next : β → Session γ} (h : Orderly out refuses session)
    (h' : ∀ before value after, runFrom session before = (.ok value, after) →
      Orderly out refuses (next value)) :
    Orderly out refuses (session >>= next) := by
  intro before
  have hfirst := h before
  rw [runFrom_bind]
  rcases hrun : runFrom session before with ⟨outcome, after⟩
  rw [hrun] at hfirst
  cases outcome with
  | error failure => exact hfirst
  | ok value => exact hfirst.append (h' before value after hrun after)

theorem bind {session : Session β} {next : β → Session γ} (h : Orderly out refuses session)
    (h' : ∀ value, Orderly out refuses (next value)) : Orderly out refuses (session >>= next) :=
  h.bind_of_value fun _ value _ _ => h' value

/-- What follows a question has to be orderly for its answers only. -/
theorem ask_bind {question : Tree → Except Failure β} {next : β → Session γ}
    (h : ∀ files, RefusesOnly refuses (question files))
    (h' : ∀ files answer, question files = .ok answer → Orderly out refuses (next answer)) :
    Orderly out refuses (Session.ask question >>= next) := by
  refine (ask h).bind_of_value fun before answer after hrun => ?_
  rw [runFrom_ask] at hrun
  exact h' before.files answer (congrArg Prod.fst hrun)

/-- A check in front of what follows. -/
theorem check {c : Prop} [Decidable c] {failure : Failure} {next : PUnit → Session β}
    (hrefuses : refuses failure) (h : Orderly out refuses (next ())) :
    Orderly out refuses (if c then MonadExcept.throw failure >>= next else next ()) := by
  split
  · exact throw hrefuses
  · exact h

theorem mapM {step : β → Session γ} {items : List β}
    (h : ∀ item ∈ items, Orderly out refuses (step item)) :
    Orderly out refuses (items.mapM step) := by
  induction items with
  | nil => exact pure []
  | cons item rest ih =>
    rw [List.mapM_cons]
    refine bind (h item List.mem_cons_self) fun value => ?_
    exact bind (ih fun item hitem => h item (List.mem_cons_of_mem _ hitem)) fun values => pure _

theorem forM {step : β → Session PUnit} {items : List β}
    (h : ∀ item ∈ items, Orderly out refuses (step item)) :
    Orderly out refuses (items.forM step) := by
  induction items with
  | nil => exact pure ()
  | cons item rest ih =>
    change Orderly out refuses (step item >>= fun _ => rest.forM step)
    exact bind (h item List.mem_cons_self) fun _ =>
      ih fun item hitem => h item (List.mem_cons_of_mem _ hitem)

/-! ### Results -/

/-- A result that is noted and then written. -/
theorem write (relative : Path) (medium : Medium) (content : String) :
    Orderly out refuses
      (record out relative >>= fun path => Session.write medium path content) := by
  intro before
  -- the path is noted before the result is stored, so it is noted in both cases
  rw [runFrom_bind, runFrom_record]
  simp only [runFrom_write]
  rcases hstore : medium.store before.files (out.request.outputPath relative) content
    with ⟨outcome, files⟩
  cases outcome with
  | error failure => exact .notStored ⟨medium, content, hstore, rfl, rfl⟩
  | ok value => exact .stored ⟨medium, content, hstore, rfl, rfl⟩ (.done _)

theorem text (relative : Path) (content : String) :
    Orderly out refuses (Session.text out relative content) :=
  write relative .text (Text.normalize content)

theorem panels (relative : Path) (figures : List (Figure.Panel Float)) :
    Orderly out refuses (Session.panels out relative figures) :=
  write relative .figure (Figure.Svg.render out.size figures)

theorem panel (relative : Path) (figure : Figure.Panel Float) :
    Orderly out refuses (Session.panel out relative figure) :=
  panels relative [figure]

/-- Columns of one length can be written, so they are stored as any text. -/
theorem columns (relative : Path) {values : List (List Float)} (format : Table.ColumnFormat)
    (rows : Nat) (h : ∀ column ∈ values, column.length = rows) :
    Orderly out refuses (Session.columns out relative values format) := by
  obtain ⟨content, hrender⟩ : ∃ content, Table.renderColumns values format = .ok content :=
    ⟨_, Table.renderColumns_eq_ok format fun _ hc => Table.length_eq_firstWidth h hc⟩
  have hcolumns : Session.columns out relative values format
      = record out relative >>= fun path => Session.write .text path (Text.normalize content) := by
    unfold Session.columns
    rw [hrender]
    rfl
  rw [hcolumns]
  exact write relative .text (Text.normalize content)

end Orderly

/-! ## Prepared sessions -/

/-- A session that refuses to go on only before it stores the first result. -/
def Prepared (out : Output) (refuses : Failure → Prop) (session : Session β) : Prop :=
  ∀ before, (∃ failure, refuses failure ∧ runFrom session before = (.error failure, before)) ∨
    Course out (fun _ => False) before ((runFrom session before).1.map fun _ => ())
      (runFrom session before).2

namespace Prepared

theorem of_orderly {session : Session β} (h : Orderly out (fun _ => False) session) :
    Prepared out refuses session :=
  fun before => .inr (h before)

theorem ask_bind {question : Tree → Except Failure β} {next : β → Session γ}
    (h : ∀ files, RefusesOnly refuses (question files))
    (h' : ∀ files answer, question files = .ok answer → Prepared out refuses (next answer)) :
    Prepared out refuses (Session.ask question >>= next) := by
  intro before
  rw [runFrom_bind, runFrom_ask]
  cases hanswer : question before.files with
  | error failure => exact .inl ⟨failure, h _ failure hanswer, rfl⟩
  | ok answer => exact h' before.files answer hanswer before

theorem check {c : Prop} [Decidable c] {failure : Failure} {next : PUnit → Session β}
    (hrefuses : refuses failure) (h : Prepared out refuses (next ())) :
    Prepared out refuses (if c then MonadExcept.throw failure >>= next else next ()) := by
  split
  · exact fun before => .inl ⟨failure, hrefuses, rfl⟩
  · exact h

theorem orderly {session : Session β} (h : Prepared out refuses session) :
    Orderly out refuses session := by
  intro before
  rcases h before with ⟨failure, hrefuses, hrun⟩ | hcourse
  · rw [hrun]
    exact .refused before hrefuses
  · exact hcourse.mono fun _ hfalse => hfalse.elim

/-- After a failure other than to store a result, nothing has changed. -/
theorem eq_error {session : Session β} (h : Prepared out refuses session) {before after : State}
    {failure : Failure} (hrun : runFrom session before = (.error failure, after)) :
    failure.code ∈ storeCodes ∨ after = before := by
  rcases h before with ⟨_, -, hrefused⟩ | hcourse
  · rw [hrefused] at hrun
    exact .inr (congrArg Prod.snd hrun).symm
  · -- a course without refusals
    rw [hrun] at hcourse
    exact .inl (hcourse.eq_error.resolve_left id)

end Prepared

end Session

end FluidAnalysis.Report
