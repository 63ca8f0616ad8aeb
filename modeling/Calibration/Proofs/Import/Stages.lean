import Calibration.Proofs.Folder
import Calibration.Proofs.Import.Loaded

/-! # The stages of an import

Each stage of an import can fail on its own, and several may be bound to fail at once: the module file is
damaged, the table is missing and the place for the output is a folder. The import ends with the error of the
earliest such stage and leaves all files alone. If no stage fails, the calibrated module is written.
-/
namespace Calibration
namespace ImportJob

inductive Stage where
  | readModule
  | decode
  | checkState
  | readTable
  | validate
  | plan
  | write
  deriving DecidableEq, Repr

def Stage.rank : Stage → Nat
  | .readModule => 0
  | .decode => 1
  | .checkState => 2
  | .readTable => 3
  | .validate => 4
  | .plan => 5
  | .write => 6

theorem Stage.rank_injective {s s' : Stage} (h : s.rank = s'.rank) : s = s' := by
  cases s <;> cases s' <;> first | rfl | cases h

variable (job : ImportJob) (input : ByteArray) (folder : Folder)

def moduleSource : Except FileFault ByteArray :=
  match job.graph with
  | some path => folder.read path
  | none => .ok input

def moduleRead : Except FileFault String := (job.moduleSource input folder).bind Folder.decodeText

def Loads (m : Module) : Prop :=
  ∃ text, job.moduleRead input folder = .ok text ∧ Module.ofText? text = some m

def tableRead : Except TableError Table.Parsed := Table.parseFile job.table (folder.read job.table)

/-- A stage fails for this reason, whether it is reached or not. Where a stage looks at what earlier ones
give, they give it. -/
inductive Fails : Stage → Stop JobError → Prop
  | readModule {fault : FileFault} (h : job.moduleRead input folder = .error fault) :
    Fails .readModule (.reported (.read (job.graph.getD "<stdin>") fault))
  | decode {text : String} (h : job.moduleRead input folder = .ok text)
    (hm : Module.ofText? text = none) : Fails .decode (.reported .notModule)
  | checkState {m : Module} (hm : job.Loads input folder m) (hs : m.state ≠ .topF32) :
    Fails .checkState (.reported (.importing (.calibration (.wrongState .topF32 m.state))))
  | readTable {e : TableError} (h : job.tableRead folder = .error e) :
    Fails .readTable (.reported (.importing (.table e)))
  | validate {m : Module} {e : GraphError} (hm : job.Loads input folder m) (h : m.validate = .error e) :
    Fails .validate (.reported (.importing (.calibration (.graph e))))
  | plan {m : Module} {parsed : Table.Parsed} {stop : Stop CalibrationError}
    (hm : job.Loads input folder m) (hp : job.tableRead folder = .ok parsed)
    (h : Plan.make parsed.tables job.settings m = .error stop) :
    Fails .plan (stop.map fun e => .importing (.calibration e))
  | write {path : String} {fault : FileFault} (hout : job.out = some path)
    (h : ∀ bytes, folder.write path bytes = .error fault) : Fails .write (.reported (.write path fault))

def runIn : Outcome ImportReport × Folder := (job.run (Folder.files input)).run folder

def ClearBefore (rank : Nat) : Prop :=
  ∀ (s : Stage) (stop : Stop JobError), s.rank < rank → ¬job.Fails input folder s stop

def Calibrates (m' : Module) (report : ImportReport) : Prop :=
  ∃ m parsed, job.Loads input folder m ∧ job.tableRead folder = .ok parsed ∧
    m.annotate parsed.tables job.settings = (m', .ok report.summary) ∧ report.status = parsed.status

variable {job input folder}

theorem Loads.unique {m m' : Module} (h : job.Loads input folder m) (h' : job.Loads input folder m') :
    m = m' := by
  obtain ⟨text, htext, hm⟩ := h
  obtain ⟨text', htext', hm'⟩ := h'
  cases htext.symm.trans htext'
  exact Option.some.inj (hm.symm.trans hm')

/-- What an import has written can be loaded. -/
theorem loads_of_moduleText {m : Module} (h : AllFinite m.allFloats)
    (hsource : job.moduleSource input folder = .ok (moduleText m).toUTF8) :
    job.Loads input folder m.asStored := by
  refine ⟨moduleText m, ?_, Module.ofText?_moduleText h⟩
  rw [moduleRead, hsource, Except.bind]
  exact Folder.decodeText_toUTF8 (moduleText m)

theorem Fails.unique {s : Stage} {stop stop' : Stop JobError} (h : job.Fails input folder s stop)
    (h' : job.Fails input folder s stop') : stop = stop' := by
  cases h with
  | readModule h =>
    cases h' with
    | readModule h' =>
      cases h.symm.trans h'
      rfl
  | decode =>
    cases h' with
    | decode => rfl
  | checkState hm =>
    cases h' with
    | checkState hm' => rw [hm.unique hm']
  | readTable h =>
    cases h' with
    | readTable h' =>
      cases h.symm.trans h'
      rfl
  | validate hm h =>
    cases h' with
    | validate hm' h' =>
      cases hm.unique hm'
      cases h.symm.trans h'
      rfl
  | plan hm hp h =>
    cases h' with
    | plan hm' hp' h' =>
      cases hm.unique hm'
      cases hp.symm.trans hp'
      cases h.symm.trans h'
      rfl
  | write hout h =>
    cases h' with
    | write hout' h' =>
      cases hout.symm.trans hout'
      cases (h .empty).symm.trans (h' .empty)
      rfl

theorem clearBefore_zero : job.ClearBefore input folder 0 := fun _ _ h => absurd h (Nat.not_lt_zero _)

/-- A further stage that does not fail. -/
theorem ClearBefore.succ {s : Stage} (h : job.ClearBefore input folder s.rank)
    (hs : ∀ stop, ¬job.Fails input folder s stop) : job.ClearBefore input folder (s.rank + 1) := by
  intro s' stop hrank
  rcases Nat.lt_succ_iff_lt_or_eq.1 hrank with hlt | heq
  · exact h s' stop hlt
  · cases Stage.rank_injective heq
    exact hs stop

/-- The last stage is that of writing. -/
theorem ClearBefore.not_fails (h : job.ClearBefore input folder Stage.write.rank)
    (hwrite : ∀ stop, ¬job.Fails input folder .write stop) : ∀ s stop, ¬job.Fails input folder s stop := by
  intro s stop
  have hlast : s.rank < Stage.write.rank + 1 := by cases s <;> decide
  exact h.succ hwrite s stop hlast

/-- The first stage that fails decides why. -/
theorem Fails.eq_of_clearBefore {s s' : Stage} {stop stop' : Stop JobError}
    (h : job.Fails input folder s stop) (h' : job.Fails input folder s' stop')
    (hclear : job.ClearBefore input folder s.rank) (hclear' : job.ClearBefore input folder s'.rank) :
    stop = stop' := by
  rcases Nat.lt_trichotomy s.rank s'.rank with hlt | heq | hgt
  · exact absurd h (hclear' s stop hlt)
  · cases Stage.rank_injective heq
    exact h.unique h'
  · exact absurd h' (hclear s' stop' hgt)

section Clear

/-! Which stages are passed when each gives what the next one needs. -/

variable {m : Module} {parsed : Table.Parsed}

theorem clearBefore_decode {text : String} (hread : job.moduleRead input folder = .ok text) :
    job.ClearBefore input folder Stage.decode.rank := by
  refine clearBefore_zero.succ (s := .readModule) fun stop h => ?_
  cases h with
  | readModule h => cases hread.symm.trans h

variable (hm : job.Loads input folder m)
include hm

theorem Loads.clearBefore : job.ClearBefore input folder Stage.checkState.rank := by
  obtain ⟨text, hread, htext⟩ := hm
  refine (clearBefore_decode hread).succ (s := .decode) fun stop h => ?_
  cases h with
  | decode hread' hnone =>
    cases hread.symm.trans hread'
    cases htext.symm.trans hnone

variable (hs : m.state = .topF32)
include hs

theorem clearBefore_readTable : job.ClearBefore input folder Stage.readTable.rank := by
  refine hm.clearBefore.succ (s := .checkState) fun stop h => ?_
  cases h with
  | checkState hm' hs' =>
    cases hm.unique hm'
    exact hs' hs

variable (hp : job.tableRead folder = .ok parsed)
include hp

theorem clearBefore_validate : job.ClearBefore input folder Stage.validate.rank := by
  refine (clearBefore_readTable hm hs).succ (s := .readTable) fun stop h => ?_
  cases h with
  | readTable h => cases hp.symm.trans h

variable (hv : m.validate = .ok ())
include hv

theorem clearBefore_plan : job.ClearBefore input folder Stage.plan.rank := by
  refine (clearBefore_validate hm hs hp).succ (s := .validate) fun stop h => ?_
  cases h with
  | validate hm' h =>
    cases hm.unique hm'
    cases hv.symm.trans h

theorem clearBefore_write {plan : Plan} (hplan : Plan.make parsed.tables job.settings m = .ok plan) :
    job.ClearBefore input folder Stage.write.rank := by
  refine (clearBefore_plan hm hs hp hv).succ (s := .plan) fun stop h => ?_
  cases h with
  | plan hm' hp' h =>
    cases hm.unique hm'
    cases hp.symm.trans hp'
    cases hplan.symm.trans h

end Clear

/-! ## The run of a job -/

/-- How a run can end: what it gives, what it prints and the files that it leaves. -/
inductive Ended (job : ImportJob) (input : ByteArray) (folder : Folder) :
    Except (Stop JobError) ImportReport → String → Folder → Prop
  | failed {s : Stage} {stop : Stop JobError} (h : job.Fails input folder s stop)
    (hclear : job.ClearBefore input folder s.rank) : Ended job input folder (.error stop) "" folder
  | printed {m' : Module} {report : ImportReport} (hnone : ∀ s stop, ¬job.Fails input folder s stop)
    (hm : job.Calibrates input folder m' report) (hout : job.out = none) :
    Ended job input folder (.ok report) (moduleText m') folder
  | written {m' : Module} {report : ImportReport} {path : String} {folder' : Folder}
    (hnone : ∀ s stop, ¬job.Fails input folder s stop) (hm : job.Calibrates input folder m' report)
    (hout : job.out = some path) (hwrite : folder.write path (moduleText m').toUTF8 = .ok folder') :
    Ended job input folder (.ok report) "" folder'

namespace Ended
variable {result : Except (Stop JobError) ImportReport} {text : String} {left : Folder}
  (hended : Ended job input folder result text left)
include hended

theorem eq_error_iff {stop : Stop JobError} : result = .error stop ↔
    ∃ s, job.Fails input folder s stop ∧ job.ClearBefore input folder s.rank := by
  constructor
  · rintro rfl
    cases hended with
    | failed h hclear => exact ⟨_, h, hclear⟩
  · rintro ⟨s, h, hclear⟩
    cases hended with
    | failed h' hclear' => rw [h.eq_of_clearBefore h' hclear hclear']
    | printed hnone | written hnone => exact absurd h (hnone s stop)

/-- Nothing but a stage makes a run fail. -/
theorem exists_ok_iff : (∃ report, result = .ok report) ↔ ∀ s stop, ¬job.Fails input folder s stop := by
  constructor
  · rintro ⟨report, rfl⟩
    cases hended with
    | printed hnone | written hnone => exact hnone
  · intro hnone
    cases hended with
    | failed h => exact absurd h (hnone _ _)
    | printed | written => exact ⟨_, rfl⟩

theorem untouched_of_error {stop : Stop JobError} (h : result = .error stop) :
    text = "" ∧ left = folder := by
  cases h
  cases hended with
  | failed => exact ⟨rfl, rfl⟩

theorem output_of_ok {report : ImportReport} (hr : result = .ok report) :
    ∃ m', job.Calibrates input folder m' report ∧
      (job.out = none → text = moduleText m' ∧ left = folder) ∧
      ∀ path, job.out = some path → left.read path = .ok (moduleText m').toUTF8 := by
  cases hr
  cases hended with
  | printed _ hm hout =>
    refine ⟨_, hm, fun _ => ⟨rfl, rfl⟩, fun path hpath => ?_⟩
    cases hout.symm.trans hpath
  | written _ hm hout hwrite =>
    refine ⟨_, hm, fun hnone => ?_, fun path hpath => ?_⟩
    · cases hout.symm.trans hnone
    · cases hout.symm.trans hpath
      exact Folder.read_of_write hwrite

end Ended

end ImportJob

theorem Module.importFile_run (settings : Settings) (path : String) (input : ByteArray) (folder : Folder)
    (m : Module) : (m.importFile settings path (Folder.files input)).run folder =
      pure (⟨(m.importTable settings path (folder.read path)).1,
        (m.importTable settings path (folder.read path)).2,
        m.importNotes settings path (folder.read path)⟩, folder) := by
  unfold importFile
  cases hs : m.checkState with
  | error e =>
    simp only [importTable, importNotes, hs]
    rfl
  | ok u => rfl

theorem Stop.map_map {ε ε' ε'' : Type} (g : ε → ε') (g' : ε' → ε'') (stop : Stop ε) :
    (stop.map g).map g' = stop.map fun e => g' (g e) := by
  cases stop <;> rfl

namespace ImportJob

/-- The run of a job as a function of the files it finds. -/
theorem runIn_eq (job : ImportJob) (input : ByteArray) (folder : Folder) :
    job.runIn input folder =
      match readModule (job.graph.getD "<stdin>") (job.moduleSource input folder) with
      | .error e => (⟨.error (.reported e), "", []⟩, folder)
      | .ok m =>
        let imported := m.importTable job.settings job.table (folder.read job.table)
        let notes := m.importNotes job.settings job.table (folder.read job.table)
        match imported.2 with
        | .error stop => (⟨.error (stop.map .importing), "", notes⟩, folder)
        | .ok report =>
          let notes := notes ++ truncationNotes job.table report.status
          match job.out with
          | none => (⟨.ok report, moduleText imported.1, notes⟩, folder)
          | some path =>
            match folder.write path (moduleText imported.1).toUTF8 with
            | .error fault => (⟨.error (.reported (.write path fault)), "", notes⟩, folder)
            | .ok folder' => (⟨.ok report, "", notes⟩, folder') := by
  have hread (path : String) :
      ((Folder.files input).read path).run folder = pure (folder.read path, folder) := rfl
  have hinput : (Folder.files input).readInput.run folder = pure (.ok input, folder) := rfl
  have hwritten {path : String} {bytes : ByteArray} {folder' : Folder}
      (h : folder.write path bytes = .ok folder') :
      ((Folder.files input).write path bytes).run folder = pure (.ok (), folder') := by
    simp only [Folder.files, StateT.run, h]
    rfl
  have hfailed {path : String} {bytes : ByteArray} {fault : FileFault}
      (h : folder.write path bytes = .error fault) :
      ((Folder.files input).write path bytes).run folder = pure (.error fault, folder) := by
    simp only [Folder.files, StateT.run, h]
    rfl
  unfold runIn run moduleSource
  -- The module comes from a file or from the input; the rest is the same.
  cases job.graph
  all_goals
    simp only [StateT.run_bind, hread, hinput, pure_bind]
    generalize readModule _ _ = read
    cases read with
    | error e => rfl
    | ok m =>
      simp only [StateT.run_bind, Module.importFile_run, pure_bind]
      generalize (m.importTable job.settings job.table (folder.read job.table)) = imported
      obtain ⟨m', result⟩ := imported
      cases result with
      | error e => rfl
      | ok report =>
        cases job.out with
        | none => rfl
        | some path =>
          cases hwrite : folder.write path (moduleText m').toUTF8 with
          | error fault =>
            simp only [StateT.run_bind, hfailed hwrite, pure_bind, hwrite]
            rfl
          | ok folder' =>
            simp only [StateT.run_bind, hwritten hwrite, pure_bind, hwrite]
            rfl

theorem readModule_eq (job : ImportJob) (input : ByteArray) (folder : Folder) :
    readModule (job.graph.getD "<stdin>") (job.moduleSource input folder) =
      match job.moduleRead input folder with
      | .error fault => .error (.read (job.graph.getD "<stdin>") fault)
      | .ok text =>
        match Module.ofText? text with
        | none => .error .notModule
        | some m => .ok m := rfl

/-- A loaded module is calibrated, or one of the stages that are next has failed first. -/
theorem importTable_cases {job : ImportJob} {input : ByteArray} {folder : Folder} {m : Module}
    (hm : job.Loads input folder m) :
    (∃ s stop, job.Fails input folder s (stop.map .importing) ∧ job.ClearBefore input folder s.rank ∧
      (m.importTable job.settings job.table (folder.read job.table)).2 = .error stop) ∨
    ∃ m' report, job.ClearBefore input folder Stage.write.rank ∧ job.Calibrates input folder m' report ∧
      m.importTable job.settings job.table (folder.read job.table) = (m', .ok report) := by
  unfold Module.importTable Module.checkState
  by_cases hs : m.state = .topF32
  · rw [if_pos hs]
    cases hp : job.tableRead folder with
    | error e =>
      have hparse : Table.parseFile job.table (folder.read job.table) = .error e := hp
      simp only [hparse]
      exact .inl ⟨_, .reported (.table e), .readTable hp, clearBefore_readTable hm hs, rfl⟩
    | ok parsed =>
      have hparse : Table.parseFile job.table (folder.read job.table) = .ok parsed := hp
      have hend := Module.annotate_ending parsed.tables job.settings m
      simp only [hparse]
      generalize hr : m.annotate parsed.tables job.settings = r at hend ⊢
      cases hend with
      | wrongState hne => exact absurd hs hne
      | @malformed e _ hv =>
        exact .inl ⟨_, .reported (.calibration (.graph e)), .validate hm hv,
          clearBefore_validate hm hs hp, rfl⟩
      | @stopped stop _ hv hf =>
        have hplan : Plan.make parsed.tables job.settings m = .error stop := by
          simp only [Plan.make, hf]
        have hfails : job.Fails input folder .plan ((stop.map .calibration).map .importing) := by
          rw [Stop.map_map]
          exact .plan hm hp hplan
        exact .inl ⟨_, _, hfails, clearBefore_plan hm hs hp hv, rfl⟩
      | done _ hv hf =>
        have hplan : Plan.make parsed.tables job.settings m =
            .ok (Plan.ofFindings (moduleFindings parsed.tables job.settings m)) := by
          simp only [Plan.make, hf]
        exact .inr ⟨_, _, clearBefore_write hm hs hp hv hplan, ⟨m, parsed, hm, hp, hr, rfl⟩, rfl⟩
  · rw [if_neg hs]
    exact .inl ⟨_, .reported (.calibration (.wrongState .topF32 m.state)), .checkState hm hs,
      hm.clearBefore, rfl⟩

/-- The run of a job as it is told by its stages. -/
theorem ended_runIn (job : ImportJob) (input : ByteArray) (folder : Folder) :
    job.Ended input folder (job.runIn input folder).1.result (job.runIn input folder).1.printed
      (job.runIn input folder).2 := by
  rw [runIn_eq, readModule_eq]
  cases hread : job.moduleRead input folder with
  | error fault => exact .failed (.readModule hread) clearBefore_zero
  | ok text =>
    cases htext : Module.ofText? text with
    | none =>
      simp only [htext]
      exact .failed (.decode hread htext) (clearBefore_decode hread)
    | some m =>
      simp only [htext]
      rcases importTable_cases ⟨text, hread, htext⟩ with
        ⟨s, stop, hfails, hclear, himport⟩ | ⟨m', report, hclear, hcalibrates, himport⟩
      · simp only [himport]
        exact .failed hfails hclear
      · simp only [himport]
        cases hout : job.out with
        | none =>
          refine .printed (hclear.not_fails fun stop h => ?_) hcalibrates hout
          cases h with
          | write hout' => cases hout.symm.trans hout'
        | some path =>
          cases hwrite : folder.write path (moduleText m').toUTF8 with
          | error fault =>
            simp only [hwrite]
            have hbytes (bytes : ByteArray) : folder.write path bytes = .error fault :=
              Folder.write_eq_error_iff.2 (Folder.write_eq_error_iff.1 hwrite)
            exact .failed (.write hout hbytes) hclear
          | ok folder' =>
            simp only [hwrite]
            refine .written (hclear.not_fails fun stop h => ?_) hcalibrates hout hwrite
            cases h with
            | write hout' h =>
              cases hout.symm.trans hout'
              cases hwrite.symm.trans (h _)

end ImportJob

inductive JobError.Inaccessible : JobError → Prop
  | read (path : String) (fault : FileFault) : Inaccessible (.read path fault)
  | notModule : Inaccessible .notModule
  | importTable (path : String) (fault : FileFault) :
    Inaccessible (.importing (.table (.unreadable path fault)))
  | table (path : String) (fault : FileFault) : Inaccessible (.table (.unreadable path fault))
  | write (path : String) (fault : FileFault) : Inaccessible (.write path fault)

theorem JobError.exitCode_cases (e : JobError) :
    e.Inaccessible ∧ e.exitCode = 2 ∨ ¬e.Inaccessible ∧ e.exitCode = 1 := by
  cases e with
  | read path fault => exact .inl ⟨.read path fault, rfl⟩
  | write path fault => exact .inl ⟨.write path fault, rfl⟩
  | notModule => exact .inl ⟨.notModule, rfl⟩
  | importing e =>
    cases e with
    | calibration e => exact .inr ⟨nofun, rfl⟩
    | table e =>
      cases e with
      | unreadable path fault => exact .inl ⟨.importTable path fault, rfl⟩
      | malformed => exact .inr ⟨nofun, rfl⟩
  | table e =>
    cases e with
    | unreadable path fault => exact .inl ⟨.table path fault, rfl⟩
    | malformed => exact .inr ⟨nofun, rfl⟩

/-- Planning stops at missing records, at wrong numbers of channels and at ranges without a map only. -/
theorem Plan.make_error_cases {tables : Tables} {settings : Settings} {m : Module}
    {stop : Stop CalibrationError} (h : Plan.make tables settings m = .error stop) :
    (∃ tensor kind, stop = .reported (.missingRecord tensor kind)) ∨
      (∃ key expected found, stop = .reported (.channelCount key expected found)) ∨
      stop = .overflow ∧ settings.asymmetric = true := by
  unfold Plan.make at h
  cases hf : (moduleFindings tables settings m).findSome? Located.stop? with
  | none => simp [hf] at h
  | some stop' =>
    simp only [hf] at h
    cases h
    obtain ⟨p, ⟨f, -, op, -, ho⟩, -⟩ := findSome?_moduleFindings_eq_some_iff.1 hf
    generalize p.2.2 = k at ho
    cases stop with
    | overflow => exact .inr (.inr ⟨rfl, ho.asymmetric_of_overflow⟩)
    | reported e =>
      cases ho with
      | missingRecord => exact .inl ⟨_, _, rfl⟩
      | channelCount => exact .inr (.inl ⟨_, _, _, rfl⟩)

namespace ImportJob

/-- Errors of planning are of two kinds, and no other stage is broken off. -/
theorem Fails.overflow_or_reported {job : ImportJob} {input : ByteArray} {folder : Folder} {s : Stage}
    {stop : Stop JobError} (h : job.Fails input folder s stop) :
    (stop = .overflow → s = .plan ∧ job.settings.asymmetric = true) ∧
    (s = .plan → stop = .overflow ∨
      (∃ tensor kind, stop = .reported (.importing (.calibration (.missingRecord tensor kind)))) ∨
        ∃ key expected found,
          stop = .reported (.importing (.calibration (.channelCount key expected found)))) := by
  cases h with
  | plan _ _ hplan =>
    rcases Plan.make_error_cases hplan with
      ⟨tensor, kind, rfl⟩ | ⟨key, expected, found, rfl⟩ | ⟨rfl, hmode⟩
    · exact ⟨nofun, fun _ => .inr (.inl ⟨tensor, kind, rfl⟩)⟩
    · exact ⟨nofun, fun _ => .inr (.inr ⟨key, expected, found, rfl⟩)⟩
    · exact ⟨fun _ => ⟨rfl, hmode⟩, fun _ => .inl rfl⟩
  | _ => exact ⟨nofun, nofun⟩

/-- An import fails at the first stage that fails, for its reason, and then it has printed nothing and left
all files alone. Otherwise the module is calibrated and its text with a newline is what the output then
holds. The reason is an error, but planning may also be broken off, in asymmetric mode. The exit code tells what
cannot be read, decoded or written from all other errors. -/
theorem first_failing_stage_decides (job : ImportJob) (input : ByteArray) (folder : Folder) :
    (∀ stop, (job.runIn input folder).1.result = .error stop ↔
      ∃ s, job.Fails input folder s stop ∧ job.ClearBefore input folder s.rank) ∧
    ((∃ report, (job.runIn input folder).1.result = .ok report) ↔
      ∀ s stop, ¬job.Fails input folder s stop) ∧
    (∀ stop, (job.runIn input folder).1.result = .error stop →
      (job.runIn input folder).1.printed = "" ∧ (job.runIn input folder).2 = folder) ∧
    (∀ report, (job.runIn input folder).1.result = .ok report →
      ∃ m', job.Calibrates input folder m' report ∧
        (job.out = none → (job.runIn input folder).1.printed = m'.toText ++ "\n" ∧
          (job.runIn input folder).2 = folder) ∧
        ∀ path, job.out = some path →
          (job.runIn input folder).2.read path = .ok (m'.toText ++ "\n").toUTF8) ∧
    (∀ s stop, job.Fails input folder s stop →
      (stop = .overflow → s = .plan ∧ job.settings.asymmetric = true) ∧
      (s = .plan → stop = .overflow ∨
        (∃ tensor kind, stop = .reported (.importing (.calibration (.missingRecord tensor kind)))) ∨
          ∃ key expected found,
            stop = .reported (.importing (.calibration (.channelCount key expected found))))) ∧
    ∀ e : JobError, (e.exitCode = 2 ↔ e.Inaccessible) ∧ (e.exitCode = 1 ↔ ¬e.Inaccessible) := by
  have hended := job.ended_runIn input folder
  refine ⟨fun stop => hended.eq_error_iff, hended.exists_ok_iff, fun stop => hended.untouched_of_error,
    fun report => hended.output_of_ok, fun s stop => Fails.overflow_or_reported, ?_⟩
  intro e
  rcases e.exitCode_cases with ⟨h, hcode⟩ | ⟨h, hcode⟩ <;> simp [h, hcode]

def netFolder (state : State) : Folder :=
  ((Folder.empty.put (Location.working.child "m") (.file (moduleText ⟨"net", state, []⟩).toUTF8)).put
    (Location.working.child "t") (.file .empty)).put (Location.working.child "out") .directory

def netJob (table out : String) : ImportJob := ⟨some "m", table, some out, ⟨true, .int8⟩⟩

/-- A module in the wrong state, a missing table and a folder in the place of the output are three failures,
of which the first counts. A float graph without functions is calibrated with the empty table. -/
theorem first_failing_stage_decides_net :
    (∃ e e' e'', (netJob "none" "out").Fails .empty (netFolder .tpuLowered) .checkState (.reported e) ∧
      (netJob "none" "out").Fails .empty (netFolder .tpuLowered) .readTable (.reported e') ∧
      (netJob "none" "out").Fails .empty (netFolder .tpuLowered) .write (.reported e'') ∧
      ((netJob "none" "out").runIn .empty (netFolder .tpuLowered)).1.result = .error (.reported e) ∧
      ((netJob "none" "out").runIn .empty (netFolder .tpuLowered)).2 = netFolder .tpuLowered ∧
      e.exitCode = 1 ∧ e'.exitCode = 2 ∧ e''.exitCode = 2) ∧
    ((netJob "t" "new").runIn .empty (netFolder .topF32)).2.read "new" =
      .ok (moduleText ⟨"net", .topCalibrated, []⟩).toUTF8 := by
  constructor
  · have hloads : (netJob "none" "out").Loads .empty (netFolder .tpuLowered) ⟨"net", .tpuLowered, []⟩ :=
      loads_of_moduleText (m := ⟨"net", .tpuLowered, []⟩) (List.forall_mem_nil _) rfl
    have hstate : (netJob "none" "out").Fails .empty (netFolder .tpuLowered) .checkState _ :=
      .checkState hloads nofun
    have htable : (netJob "none" "out").Fails .empty (netFolder .tpuLowered) .readTable _ :=
      .readTable (e := .unreadable "none" .notFound) (by decide +kernel)
    have hwrite (bytes : ByteArray) : (netFolder .tpuLowered).write "out" bytes = .error .isDirectory :=
      Folder.write_eq_error_iff.2 (.inr ⟨Location.working.child "out", by decide +kernel, rfl, rfl⟩)
    obtain ⟨herror, -, huntouched, -⟩ :=
      first_failing_stage_decides (netJob "none" "out") .empty (netFolder .tpuLowered)
    have hresult := (herror _).2 ⟨_, hstate, hloads.clearBefore⟩
    exact ⟨_, _, _, hstate, htable, .write rfl hwrite, hresult, (huntouched _ hresult).2, rfl, rfl, rfl⟩
  · have hloads : (netJob "t" "new").Loads .empty (netFolder .topF32) ⟨"net", .topF32, []⟩ :=
      loads_of_moduleText (m := ⟨"net", .topF32, []⟩) (List.forall_mem_nil _) rfl
    have hok : ((netJob "t" "new").runIn .empty (netFolder .topF32)).1.result =
        .ok ⟨.zero, .complete⟩ := by
      decide +kernel
    obtain ⟨-, -, -, hdone, -⟩ := first_failing_stage_decides (netJob "t" "new") .empty (netFolder .topF32)
    obtain ⟨m', ⟨m, parsed, hm, -, hannotate, -⟩, -, hread⟩ := hdone _ hok
    cases hm.unique hloads
    have hm' : m' = ⟨"net", .topCalibrated, []⟩ := congrArg Prod.fst hannotate.symm
    exact hm' ▸ hread "new" rfl

def farNet : Module :=
  { name := "net", state := .topF32
    functions := [{
      name := "main"
      ops := [⟨.conv, [], [⟨"c", .tensor ⟨[1], .f32⟩⟩], .empty⟩]
      outputs := ["c"]
      outputTypes := [] }] }

def farFolder : Folder :=
  (Folder.empty.put (Location.working.child "m") (.file (moduleText farNet).toUTF8)).put
    (Location.working.child "t") (.file "c 1.5e308 1e308 1.5e308\n".toUTF8)

def farJob : ImportJob := ⟨some "m", "t", some "new", ⟨true, .int8⟩⟩

/-- No stage reports an error, and yet the job does not succeed. -/
theorem runIn_farFolder :
    (∀ s e, ¬farJob.Fails .empty farFolder s (.reported e)) ∧
    (farJob.runIn .empty farFolder).1.result = .error .overflow ∧
    (farJob.runIn .empty farFolder).2 = farFolder := by
  have hloads : farJob.Loads .empty farFolder farNet :=
    loads_of_moduleText (m := farNet) (List.forall_mem_nil _) rfl
  have htable : farJob.tableRead farFolder =
      .ok ⟨Tables.empty.insertDefault "c" ⟨1.5e308, 1e308, 1.5e308⟩, .complete⟩ := by
    decide +kernel
  have hplan : Plan.make (Tables.empty.insertDefault "c" ⟨1.5e308, 1e308, 1.5e308⟩) farJob.settings
      farNet = .error .overflow := by
    decide +kernel
  have hfails : farJob.Fails .empty farFolder .plan .overflow := .plan hloads htable hplan
  have hclear := clearBefore_plan hloads rfl htable rfl
  have hended := farJob.ended_runIn .empty farFolder
  have hresult := hended.eq_error_iff.2 ⟨_, hfails, hclear⟩
  refine ⟨fun s e h => ?_, hresult, (hended.untouched_of_error hresult).2⟩
  rcases Nat.lt_trichotomy s.rank Stage.plan.rank with hlt | heq | hgt
  · exact hclear s _ hlt h
  · cases Stage.rank_injective heq
    cases h.unique hfails
  · obtain rfl : s = .write := by cases s <;> first | rfl | exact absurd hgt (by decide)
    cases h with
    | write hout hwrite =>
      cases hout
      cases hwrite .empty

end ImportJob
end Calibration
