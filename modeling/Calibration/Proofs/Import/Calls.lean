import Calibration.Proofs.Import.Loaded

/-! # Many calls on one module

A module is asked again and again to be calibrated, with tables at hand and with tables in files that may
change meanwhile. Only one call can succeed, since a module that is calibrated refuses all further ones, and
before that nothing is lost by calls that fail. A module that refuses a call does not even look for the file.
-/
namespace Calibration

inductive Call where
  | annotate (tables : Tables) (settings : Settings)
  | importFile (settings : Settings) (path : String)

inductive Answer where
  | annotated (result : Except (Stop CalibrationError) Summary)
  | imported (result : Except (Stop ImportError) ImportReport)

def Answer.succeeded : Answer → Bool
  | .annotated result => result.isOk
  | .imported result => result.isOk

def Call.refusal (found : State) : Call → Answer
  | .annotate .. => .annotated (.error (.reported (.wrongState .topF32 found)))
  | .importFile .. => .imported (.error (.reported (.calibration (.wrongState .topF32 found))))

section Monadic
variable {M : Type → Type} [Monad M] (files : Files M)

def Call.make (m : Module) : Call → M (Module × Answer)
  | .annotate tables settings =>
    return ((m.annotate tables settings).1, .annotated (m.annotate tables settings).2)
  | .importFile settings path => do
    let imported ← m.importFile settings path files
    return (imported.module, .imported imported.result)

def Module.history (m : Module) : List Call → M (List (Module × Answer))
  | [] => return []
  | call :: calls => do
    let made ← call.make files m
    let later ← made.1.history calls
    return made :: later

variable [LawfulMonad M] {m : Module}

theorem Module.checkState_of_ne (h : m.state ≠ .topF32) :
    m.checkState = .error (.wrongState .topF32 m.state) := if_neg h

/-- A refused call is answered at once, without any access to files. -/
theorem Call.make_of_ne (h : m.state ≠ .topF32) (call : Call) :
    call.make files m = pure (m, call.refusal m.state) := by
  have hstate : m.checkState = .error (.wrongState .topF32 m.state) := Module.checkState_of_ne h
  cases call with
  | annotate tables settings => simp only [make, Module.annotate, hstate, refusal]
  | importFile settings path => simp only [make, Module.importFile, hstate, refusal, pure_bind]

theorem Module.history_of_ne (h : m.state ≠ .topF32) (calls : List Call) :
    m.history files calls = pure (calls.map fun call => (m, call.refusal m.state)) := by
  induction calls with
  | nil => rfl
  | cons call calls ih =>
    rw [history, call.make_of_ne files h, pure_bind, ih, pure_bind, List.map_cons]

end Monadic

section Outcome
variable {m m' : Module} {settings : Settings}

/-- A call that fails leaves the module alone, and one that succeeds leaves it calibrated. -/
def Answer.Fits (m m' : Module) (answer : Answer) : Prop :=
  answer.succeeded = false ∧ m' = m ∨ answer.succeeded = true ∧ m'.state = .topCalibrated

theorem Module.annotate_fits (tables : Tables) :
    (Answer.annotated (m.annotate tables settings).2).Fits m (m.annotate tables settings).1 := by
  cases h : (m.annotate tables settings).2 with
  | error e => exact .inl ⟨rfl, annotate_fst_of_error h⟩
  | ok s =>
    obtain ⟨-, -, -, hm'⟩ := annotate_eq_ok_iff.1 ⟨s, Prod.ext rfl h⟩
    exact .inr ⟨rfl, congrArg Module.state hm'⟩

theorem Module.importTable_fits (path : String) (source : Except FileFault ByteArray) :
    (Answer.imported (m.importTable settings path source).2).Fits m
      (m.importTable settings path source).1 := by
  cases h : (m.importTable settings path source).2 with
  | error e => exact .inl ⟨rfl, importTable_fst_of_error h⟩
  | ok r =>
    obtain ⟨parsed, -, -, hannotate⟩ := importTable_eq_ok_iff.1 (Prod.ext rfl h)
    obtain ⟨-, -, -, hm'⟩ := annotate_eq_ok_iff.1 ⟨_, hannotate⟩
    exact .inr ⟨rfl, congrArg Module.state hm'⟩

end Outcome

section World
variable {W : Type} (files : Files (StateM W)) {m : Module}

/-- One call on a float graph, whatever the file holds by then. -/
theorem Call.make_fits (hs : m.state = .topF32) (call : Call) (w : W) :
    ∃ m' answer w', (call.make files m).run w = ((m', answer), w') ∧ answer.Fits m m' := by
  cases call with
  | annotate tables settings => exact ⟨_, _, _, rfl, m.annotate_fits tables⟩
  | importFile settings path =>
    have hstate : m.checkState = .ok () := if_pos hs
    have hrun : (make files m (.importFile settings path)).run w =
        (((m.importTable settings path ((files.read path).run w).1).1,
          .imported (m.importTable settings path ((files.read path).run w).1).2),
          ((files.read path).run w).2) := by
      simp only [make, Module.importFile, hstate]
      rfl
    exact ⟨_, _, _, hrun, m.importTable_fits path _⟩

/-- One call, and the history of what it leaves. -/
theorem Module.history_run_cons {call : Call} {m' : Module} {answer : Answer} {w w' : W}
    (hmake : (call.make files m).run w = ((m', answer), w')) (calls : List Call) :
    (m.history files (call :: calls)).run w =
      ((m', answer) :: ((m'.history files calls).run w').1, ((m'.history files calls).run w').2) := by
  simp only [history, StateT.run_bind, hmake]
  rfl

/-- Calls that are all made on `m`, from the world `w` on, and fail. -/
inductive Module.Fail (m : Module) : List Call → W → List Answer → W → Prop
  | nil {w : W} : Fail m [] w [] w
  | cons {call : Call} {calls : List Call} {answer : Answer} {answers : List Answer} {w w₁ w' : W}
    (hmake : (call.make files m).run w = ((m, answer), w₁)) (hfailed : answer.succeeded = false)
    (hcalls : Fail m calls w₁ answers w') : Fail m (call :: calls) w (answer :: answers) w'

/-- The ways in which many calls can go, with what they leave: none succeeds, or the first that does makes
the module `m'`, which refuses the others and leaves the world as it is by then. -/
inductive Module.Course (m : Module) (w : W) : List Call → List (Module × Answer) × W → Prop
  | failed {calls : List Call} {answers : List Answer} {w' : W} (h : m.Fail files calls w answers w') :
    Course m w calls (answers.map fun answer => (m, answer), w')
  | calibrated {before after : List Call} {call : Call} {answers : List Answer} {answer : Answer}
    {m' : Module} {w₁ w' : W} (hbefore : m.Fail files before w answers w₁)
    (hmake : (call.make files m).run w₁ = ((m', answer), w')) (hdone : answer.succeeded = true) :
    Course m w (before ++ call :: after) ((answers.map fun answer => (m, answer)) ++
      (m', answer) :: after.map fun call => (m', call.refusal .topCalibrated), w')

variable {files}

theorem Module.Course.cons {call : Call} {calls : List Call} {answer : Answer} {w w₁ : W}
    {out : List (Module × Answer) × W} (hmake : (call.make files m).run w = ((m, answer), w₁))
    (hfailed : answer.succeeded = false) (h : m.Course files w₁ calls out) :
    m.Course files w (call :: calls) ((m, answer) :: out.1, out.2) := by
  cases h with
  | failed h => exact .failed (h.cons hmake hfailed)
  | calibrated hbefore hlast hdone => exact .calibrated (hbefore.cons hmake hfailed) hlast hdone

/-- Before the first success nothing is lost by calls that fail, and after it nothing is done any more. -/
theorem Module.history_course (hs : m.state = .topF32) (calls : List Call) (w : W) :
    m.Course files w calls ((m.history files calls).run w) := by
  induction calls generalizing w with
  | nil => exact .failed .nil
  | cons call calls ih =>
    obtain ⟨m', answer, w₁, hmake, hfits⟩ := call.make_fits files hs w
    rw [history_run_cons files hmake]
    rcases hfits with ⟨hfailed, rfl⟩ | ⟨hdone, hcalibrated⟩
    · exact (ih w₁).cons hmake hfailed
    · have hne : m'.state ≠ .topF32 := by
        rw [hcalibrated]
        decide
      rw [history_of_ne files hne, hcalibrated]
      exact .calibrated .nil hmake hdone

end World

namespace Module

/-- A module in another state refuses all calls, whatever gives access to files and without any use of it.
A float graph is calibrated by the first call that can, and not again. -/
theorem calibrated_at_most_once (m : Module) (calls : List Call) :
    (∀ {M : Type → Type} [Monad M] [LawfulMonad M] (files : Files M), m.state ≠ .topF32 →
      m.history files calls = pure (calls.map fun call => (m, call.refusal m.state))) ∧
    (∀ {W : Type} (files : Files (StateM W)) (w : W), m.state = .topF32 →
      m.Course files w calls ((m.history files calls).run w)) := by
  constructor
  · intro M _ _ files h
    exact history_of_ne files h calls
  · intro W files w hs
    exact history_course hs calls w

def openedFiles : Files (StateM (List String)) where
  read path := fun opened => (.ok productFile.toUTF8, opened ++ [path])
  readInput := fun opened => (.ok .empty, opened)
  write _ _ := fun opened => (.ok (), opened)

def productCalls : List Call :=
  [.annotate (productTables [0.5, 0.25]) ⟨false, .int8⟩, .importFile ⟨true, .int8⟩ "first",
    .importFile ⟨true, .bf16⟩ "second", .annotate (productTables [0.5, 0.25, 0.125]) ⟨true, .int8⟩]

/-- The second of four calls succeeds, and only the first file is opened. A lowered module opens none. -/
theorem calibrated_at_most_once_product :
    (product.state = .topF32 ∧
      product.Course openedFiles [] productCalls ((product.history openedFiles productCalls).run []) ∧
      ((product.history openedFiles productCalls).run []).1.map (fun made => made.2.succeeded) =
        [false, true, false, false] ∧
      ((product.history openedFiles productCalls).run []).2 = ["first"]) ∧
    State.tpuLowered ≠ .topF32 ∧
      ({ product with state := .tpuLowered } : Module).history openedFiles productCalls =
        pure (productCalls.map fun call =>
          ({ product with state := .tpuLowered }, call.refusal .tpuLowered)) := by
  have hlowered : State.tpuLowered ≠ .topF32 := by decide
  have hsucceeded : ((product.history openedFiles productCalls).run []).1.map
      (fun made => made.2.succeeded) = [false, true, false, false] := by
    decide +kernel
  have hopened : ((product.history openedFiles productCalls).run []).2 = ["first"] := by
    decide +kernel
  exact ⟨⟨rfl, (calibrated_at_most_once product productCalls).2 openedFiles [] rfl, hsucceeded, hopened⟩,
    hlowered, (calibrated_at_most_once _ productCalls).1 openedFiles hlowered⟩

end Module
end Calibration
