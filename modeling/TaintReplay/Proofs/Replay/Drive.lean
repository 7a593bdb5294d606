import TaintReplay.Proofs.Replay.Trap

/-!
# How a replay drives the process

A `Drive` is what a session counts, asks the user and asks the debugger for. Apart from it, only two facts about a
session matter to it: whether the first action that waits at a breakpoint owns it (`Replay.springs`), and whether the
current instruction switches the processor's mode (`Session.switchesMode`). What an executed instruction does to the
counts is one of the four cases of `Drive.Counted`, and a step does to the whole no more than `Drive.apply` says
(`drive_apply`).
-/

namespace TaintReplay

/-- What the user is asked after `total` instructions, at the end of a window of `limit`. -/
def question (total limit : Nat) : String :=
  "[?] " ++ toString total ++ " instructions has been traced. Do you want to execute " ++ toString limit ++ " more?"

/-- What a session counts, asks the user, and asks the debugger for. -/
structure Drive where
  window : Nat
  total : Nat
  declined : Bool
  autoContinue : Bool
  answers : List Answer
  requests : List Request
  questions : List String

namespace Drive

/-- Asks for the next step, while stepping goes on by itself. -/
def goOn (d : Drive) (switches : Bool) : Drive :=
  if d.autoContinue then { d with requests := d.requests ++ [if switches then .stepOver else .stepInto] } else d

/-- Asks the user at the end of a window. -/
def ask (d : Drive) : Drive :=
  let asked := { d with answers := d.answers.tail, questions := d.questions ++ [question d.total d.window] }
  if d.answers.headD .yes = .yes then { asked with window := 0 }
  else { asked with declined := true, requests := d.requests ++ [.disableStepTrace, .suspend] }

/-- Counts an executed instruction, unless the user has declined to go on. -/
def count (d : Drive) (limit? : Option Nat) : Drive :=
  if d.declined then d
  else
    let d := { d with window := d.window + 1, total := d.total + 1 }
    if limit? = some d.window then d.ask else d

/-- A breakpoint is hit. Only an action that owns it lets the process move on. -/
def hit (d : Drive) (springs steps : Bool) : Drive :=
  if springs then
    if steps then { d with autoContinue := true, requests := d.requests ++ [.stepInto, .runRequests] }
    else { d with requests := d.requests ++ [.resume] }
  else { d with autoContinue := false }

/-- What a step does to the drive, given whether the first action that waits owns the breakpoint, and whether the
current instruction switches the mode after the step. -/
def apply (d : Drive) (o : Options) (springs switches : Bool) : Step → Drive
  | .event .processStart =>
    { d with window := 0, total := 0, declined := false, autoContinue := false
             requests := d.requests ++ [.clearRequests] }
  | .event (.stepInto _ _) | .event (.stepOver _ _) => d.goOn switches
  | .event (.trace _ _) => d.count o.window?
  | .event (.breakpoint _ _) => d.hit springs o.stepAfterAction
  | .answer yes => { d with answers := d.answers ++ [if yes then .yes else .no] }
  | .enableStepTrace => { d with declined := false, window := 0, requests := d.requests ++ [.enableStepTrace] }
  | _ => d

/-- Neither the counts nor the questions change. -/
structure Idle (d e : Drive) : Prop where
  window : e.window = d.window
  total : e.total = d.total
  declined : e.declined = d.declined
  questions : e.questions = d.questions

/-- What an executed instruction does to the drive, and the answer that the user gives if there is a question. -/
inductive Counted (d : Drive) (limit? : Option Nat) : Option Answer → Drive → Prop
  | ignored (declined : d.declined = true) : Counted d limit? none d
  | within (going : d.declined = false) (within : limit? ≠ some (d.window + 1)) :
      Counted d limit? none { d with window := d.window + 1, total := d.total + 1 }
  | confirmed (going : d.declined = false) (full : limit? = some (d.window + 1)) (yes : d.answers.headD .yes = .yes) :
      Counted d limit? (some .yes)
        { d with
          window := 0
          total := d.total + 1
          answers := d.answers.tail
          questions := d.questions ++ [question (d.total + 1) (d.window + 1)] }
  | refused (going : d.declined = false) (full : limit? = some (d.window + 1)) (no : d.answers.headD .yes ≠ .yes) :
      Counted d limit? (some (d.answers.headD .yes))
        { d with
          window := d.window + 1
          total := d.total + 1
          declined := true
          answers := d.answers.tail
          requests := d.requests ++ [.disableStepTrace, .suspend]
          questions := d.questions ++ [question (d.total + 1) (d.window + 1)] }

theorem idle_goOn (d : Drive) (switches : Bool) : d.Idle (d.goOn switches) := by
  unfold goOn
  split <;> exact ⟨rfl, rfl, rfl, rfl⟩

theorem idle_hit (d : Drive) (springs steps : Bool) : d.Idle (d.hit springs steps) := by
  unfold hit
  split
  · split <;> exact ⟨rfl, rfl, rfl, rfl⟩
  · exact ⟨rfl, rfl, rfl, rfl⟩

theorem idle_apply (d : Drive) (o : Options) (springs switches : Bool) {step : Step}
    (htrace : ∀ thread pc, step ≠ .event (.trace thread pc)) (hstart : step ≠ .event .processStart)
    (henable : step ≠ .enableStepTrace) : d.Idle (d.apply o springs switches step) := by
  cases step with
  | event e =>
    cases e with
    | processStart => exact absurd rfl hstart
    | stepInto _ _ | stepOver _ _ => exact d.idle_goOn switches
    | trace thread pc => exact absurd rfl (htrace thread pc)
    | breakpoint _ _ => exact d.idle_hit springs o.stepAfterAction
    | processExit => exact ⟨rfl, rfl, rfl, rfl⟩
  | enableStepTrace => exact absurd rfl henable
  | _ => exact ⟨rfl, rfl, rfl, rfl⟩

/-- Only an executed instruction leads to a question. -/
theorem questions_apply (d : Drive) (o : Options) (springs switches : Bool) {step : Step}
    (htrace : ∀ thread pc, step ≠ .event (.trace thread pc)) :
    (d.apply o springs switches step).questions = d.questions := by
  by_cases hstart : step = .event .processStart
  · rw [hstart]
    rfl
  · by_cases henable : step = .enableStepTrace
    · rw [henable]
      rfl
    · exact (d.idle_apply o springs switches htrace hstart henable).questions

theorem exists_counted_count (d : Drive) (limit? : Option Nat) : ∃ reply, d.Counted limit? reply (d.count limit?) := by
  unfold count
  split
  · rename_i hdeclined
    exact ⟨none, .ignored hdeclined⟩
  · rename_i hdeclined
    have hgoing : d.declined = false := eq_false_of_ne_true hdeclined
    dsimp only
    split
    · rename_i hfull
      unfold ask
      dsimp only
      split
      · rename_i hyes
        exact ⟨_, .confirmed hgoing hfull hyes⟩
      · rename_i hno
        exact ⟨_, .refused hgoing hfull hno⟩
    · rename_i hwithin
      exact ⟨_, .within hgoing hwithin⟩

/-- There is an answer iff there is a question more. -/
theorem Counted.reply_eq {d e : Drive} {limit? : Option Nat} {reply : Option Answer} (h : d.Counted limit? reply e) :
    reply = if e.questions.length = d.questions.length then none else some (d.answers.headD .yes) := by
  cases h with
  | ignored _ => rw [if_pos rfl]
  | within _ _ => rw [if_pos rfl]
  | confirmed _ _ hyes =>
    rw [if_neg (by simp), hyes]
  | refused _ _ _ => rw [if_neg (by simp)]

end Drive

def Control.drive {α : Type} (c : Control α) : Drive where
  window := c.window
  total := c.total
  declined := c.declined
  autoContinue := c.autoContinue
  answers := c.answers
  requests := c.requests.toList
  questions := c.questions.toList

/-! ## What a session does to its drive -/

namespace Session

variable {α ε : Type} (s : Session α ε Recorder)

def drive : Drive := s.control.drive

/-- Does the current instruction, if there is one, switch the processor's mode? -/
def switchesMode : Bool := s.progress.current.any s.atModeSwitch

theorem switchesMode_stepOn : s.stepOn.switchesMode = s.switchesMode := by
  obtain ⟨_, _, h⟩ := s.exists_stepOn_eq
  rw [h]
  rfl

theorem drive_request (q : Request) : (s.request q).drive = { s.drive with requests := s.drive.requests ++ [q] } := by
  have hpush : (s.debugger.requests.push q).toList = s.debugger.requests.toList ++ [q] := Array.toList_push
  exact congrArg (fun requests => { s.drive with requests }) hpush

theorem drive_stepOn : s.stepOn.drive = s.drive.goOn s.switchesMode := by
  have hauto : s.drive.autoContinue = s.progress.autoContinue := rfl
  unfold stepOn Drive.goOn switchesMode
  rw [hauto]
  split
  · cases s.progress.current with
    | none => exact drive_request _ _
    | some i =>
      dsimp only [Option.any_some]
      split
      · exact drive_request _ _
      · exact drive_request _ _
  · rfl

theorem drive_askAtLimit (limit : Nat) :
    (s.askAtLimit limit).drive = if s.progress.window = limit then s.drive.ask else s.drive := by
  unfold askAtLimit
  split
  · rename_i hlimit
    subst hlimit
    have htext : question s.drive.total s.drive.window = "[?] " ++ toString s.progress.total ++
        " instructions has been traced. Do you want to execute " ++ toString s.progress.window ++ " more?" := rfl
    have hanswers : s.drive.answers = s.debugger.answers := rfl
    unfold Drive.ask
    rw [hanswers, htext]
    dsimp only
    generalize "[?] " ++ toString s.progress.total ++ " instructions has been traced. Do you want to execute " ++
      toString s.progress.window ++ " more?" = text
    obtain ⟨log, hask⟩ := exists_ask_eq s.debugger text
    rw [show Debugger.ask s.debugger text = _ from hask]
    cases s.debugger.answers.headD .yes with
    | yes => simp [drive, control, Control.drive]
    | no | cancel =>
      simp [drive, control, Control.drive, request, say, Debugger.request, Recorder.request, Debugger.say, Recorder.say]
  · rfl

section Analyzer

variable [Analyzer ε]

theorem drive_onStep (thread pc : UInt64) (into : Bool) :
    (s.onStep thread pc into).drive = s.drive.goOn (s.onStep thread pc into).switchesMode := by
  unfold onStep
  split
  · rw [switchesMode_stepOn]
    exact s.drive_stepOn
  · split
    · rw [switchesMode_stepOn]
      exact s.drive_stepOn
    · dsimp only
      rw [switchesMode_stepOn, drive_stepOn, drive, control_observe, control_detail]
      rfl

theorem drive_onTrace (thread pc : UInt64) : (s.onTrace thread pc).drive = s.drive.count s.options.window? := by
  have hdeclined : s.drive.declined = s.progress.declined := rfl
  unfold onTrace Drive.count
  rw [hdeclined]
  split
  · rfl
  · dsimp only
    generalize ht : s.observe thread pc = t
    have hcontrol : t.control = s.control := by
      rw [← ht]
      exact s.control_observe thread pc
    have hoptions : t.options = s.options := congrArg Control.options hcontrol
    have hcounted : drive
        { t with progress := { t.progress with window := t.progress.window + 1, total := t.progress.total + 1 } } =
          { s.drive with window := s.drive.window + 1, total := s.drive.total + 1 } :=
      congrArg (fun c => { c.drive with window := c.window + 1, total := c.total + 1 }) hcontrol
    have hwindow : t.progress.window = s.drive.window := congrArg Control.window hcontrol
    rw [← hoptions]
    cases t.options.window? with
    | none =>
      rw [if_neg nofun]
      exact hcounted
    | some limit =>
      dsimp only
      rw [drive_askAtLimit, hcounted, hwindow]
      simp only [Option.some.injEq, eq_comm]
      rfl

end Analyzer

end Session

namespace Replay

open Session

variable (r : Replay)

/-- Does the first action that waits at the breakpoint of a step own it? -/
def springs (r : Replay) : Step → Bool
  | .event (.breakpoint _ pc) => (r.progress.pending.waiting pc).head?.any fun a => !a.keepsBreakpoint
  | _ => false

/-- Firing an action leaves the drive alone; the trace behind it does too. -/
theorem drive_onBreakpoint (thread pc : UInt64) : (r.onBreakpoint thread pc).drive =
    r.drive.hit (r.springs (.event (.breakpoint thread pc))) r.options.stepAfterAction := by
  unfold onBreakpoint springs
  dsimp only
  cases hq : r.progress.pending.take? pc with
  | none =>
    rw [ActionQueue.waiting_eq_nil_of_take? hq]
    rfl
  | some taken =>
    obtain ⟨a, pending⟩ := taken
    obtain ⟨⟨_, hfired⟩, hsame⟩ := exists_control_fire_eq { r with progress := { r.progress with pending } } a pc
    rw [(ActionQueue.waiting_of_take? hq).2.1]
    dsimp only [List.head?_cons, Option.any_some]
    rw [hsame]
    generalize ht : Session.observe (_ : Replay) thread pc = t
    have hcontrol : t.control = (Session.fire { r with progress := { r.progress with pending } } a pc).1.control := by
      rw [← ht]
      exact control_observe _ thread pc
    rw [hfired] at hcontrol
    have hdrive : t.drive = r.drive := by
      rw [drive, hcontrol]
      rfl
    have hoptions : t.options = r.options := congrArg Control.options hcontrol
    rw [← hdrive, ← hoptions]
    cases a.keepsBreakpoint with
    | true => rfl
    | false =>
      rw [if_neg Bool.false_ne_true, Drive.hit, if_pos (Bool.not_false)]
      split
      · rw [drive_request, drive_request, List.append_assoc]
        rfl
      · exact drive_request _ _

/-- The start of a process writes lines, and drops the requests that wait. -/
theorem exists_announceStart_eq (options : Options) (debugger : Recorder) :
    ∃ log, announceStart options debugger = Recorder.request { debugger with log } .clearRequests := by
  unfold announceStart note
  split
  · exact ⟨_, rfl⟩
  · exact ⟨_, rfl⟩

theorem drive_handle (e : Event) : (r.handle e).drive =
    r.drive.apply r.options (r.springs (.event e)) (r.handle e).switchesMode (.event e) := by
  cases e with
  | processStart =>
    obtain ⟨log, hstart⟩ := exists_announceStart_eq r.options r.debugger
    show (r.onProcessStart).drive = _
    rw [onProcessStart_eq, restarted, hstart]
    exact drive_request (⟨r.options, .fresh r.options, { r.debugger with log }, {}⟩ : Replay) .clearRequests
  | processExit =>
    have hinform : (r.inform .events "[!] Process exiting...").drive = r.drive :=
      congrArg Control.drive (r.control_inform _ _)
    exact hinform
  | stepInto thread pc => exact r.drive_onStep thread pc true
  | stepOver thread pc => exact r.drive_onStep thread pc false
  | trace thread pc => exact r.drive_onTrace thread pc
  | breakpoint thread pc => exact r.drive_onBreakpoint thread pc

theorem drive_stoppedAt (e : Event) : (r.stoppedAt e).drive = r.drive ∧ (r.stoppedAt e).options = r.options ∧
    (r.stoppedAt e).springs (.event e) = r.springs (.event e) := by
  unfold stoppedAt
  split <;> exact ⟨rfl, rfl, rfl⟩

theorem drive_reanalyze_advance (analysis : Shadow) : (r.advance analysis).arm.reanalyze.1.drive = r.drive := by
  rw [drive, control_reanalyze_advance]
  rfl

/-- What a step does to the drive depends on the drive, the options, and two facts about the rest. -/
theorem drive_apply (step : Step) :
    (r.apply step).drive = r.drive.apply r.options (r.springs step) (r.apply step).switchesMode step := by
  cases step with
  | event e =>
    obtain ⟨hdrive, hoptions, hsprings⟩ := r.drive_stoppedAt e
    show (r.deliver e).drive = r.drive.apply _ _ (r.deliver e).switchesMode _
    rw [deliver_eq, drive_handle, hdrive, hoptions, hsprings]
  | registers values =>
    obtain ⟨registers, hregisters⟩ := exists_foldl_setRegister_eq values r.debugger
    unfold apply
    dsimp only
    rw [hregisters]
    rfl
  | write start bytes =>
    unfold apply
    dsimp only
    split <;> rfl
  | breakAndTaint a register =>
    unfold apply breakAndRun
    dsimp only
    split <;> rfl
  | taintRegister register =>
    unfold apply Session.taintRegister
    dsimp only
    cases Analyzer.taintRegister r.analysis register with
    | ok analysis => exact r.drive_reanalyze_advance analysis
    | error cause => rfl
  | taintMemory start length => exact r.drive_reanalyze_advance _
  | enableStepTrace => exact drive_request _ .enableStepTrace
  | function _ | setBreakpoint _ | answer _ => rfl

/-! ## Answers -/

/-- The answer that a step gets from the user, if it asks a question. -/
def reply? (step : Step) : Option Answer :=
  if (r.apply step).drive.questions.length = r.drive.questions.length then none
  else some (r.drive.answers.headD .yes)

theorem counted_trace (thread pc : UInt64) :
    let step := Step.event (.trace thread pc)
    r.drive.Counted r.options.window? (r.reply? step) (r.apply step).drive := by
  intro step
  have hdrive : (r.apply step).drive = r.drive.count r.options.window? := r.drive_apply step
  obtain ⟨reply, hcounted⟩ := r.drive.exists_counted_count r.options.window?
  rw [← hdrive] at hcounted
  have hreply : reply = r.reply? step := hcounted.reply_eq
  rw [← hreply]
  exact hcounted

theorem reply?_eq_none {step : Step} (h : ∀ thread pc, step ≠ .event (.trace thread pc)) : r.reply? step = none := by
  unfold reply?
  rw [drive_apply, Drive.questions_apply _ _ _ _ h, if_pos rfl]

end Replay

end TaintReplay
