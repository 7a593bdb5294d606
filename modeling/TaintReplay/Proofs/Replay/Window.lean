import Mathlib.Data.ENat.Lattice
import TaintReplay.Proofs.Replay.Drive
import TaintReplay.Proofs.Replay.History

/-!
# Windows of executed instructions

With a limit, instructions are counted in windows, and the user is asked at the end of each. From the start of a process
on, and as long as step tracing is not opened again, a run of `n` executed instructions is `Paced`: either it is still
going, and the questions asked so far stand at the ends of all full windows, or the last question was refused, and
nothing has been counted since. `windows_after_start` puts this into numbers.
-/

namespace TaintReplay

namespace Drive

variable {limit n : Nat} {earlier : List String} {replies : List Answer} {d e : Drive}

/-- The number of the first question that is not answered with yes, counted from one; infinite if there is none. -/
def refusal (replies : List Answer) : ℕ∞ :=
  match replies.findIdx? (· ≠ .yes) with
  | some i => (i + 1 : Nat)
  | none => ⊤

/-- The window has not passed its limit, and has reached it iff the user has declined to go on. -/
def Within (limit : Nat) (d : Drive) : Prop := d.window ≤ limit ∧ (d.window = limit ↔ d.declined = true)

/-- Since the start of the process `n` instructions were executed, and the questions were answered with `replies`;
`earlier` are the questions from before. -/
structure Paced (limit n : Nat) (earlier : List String) (replies : List Answer) (d : Drive) : Prop where
  questions : d.questions = earlier ++ (List.range replies.length).map fun i => question ((i + 1) * limit) limit
  going : d.declined = false →
    (∀ a ∈ replies, a = .yes) ∧ d.total = n ∧ n = replies.length * limit + d.window ∧ d.window < limit
  stopped : d.declined = true → (∃ before last, replies = before ++ [last] ∧ (∀ a ∈ before, a = .yes) ∧ last ≠ .yes) ∧
    d.window = limit ∧ d.total = replies.length * limit ∧ d.total ≤ n

theorem Within.idle (hd : d.Within limit) (h : d.Idle e) : e.Within limit := by
  unfold Within
  rw [h.window, h.declined]
  exact hd

theorem Paced.idle (hd : d.Paced limit n earlier replies) (h : d.Idle e) : e.Paced limit n earlier replies where
  questions := h.questions.trans hd.questions
  going hgoing := by
    rw [h.total, h.window]
    exact hd.going (h.declined.symm.trans hgoing)
  stopped hstopped := by
    rw [h.total, h.window]
    exact hd.stopped (h.declined.symm.trans hstopped)

/-! ## Executed instructions -/

theorem Within.counted {reply : Option Answer} (hd : d.Within limit) (hlimit : 0 < limit)
    (h : d.Counted (some limit) reply e) : e.Within limit := by
  obtain ⟨hle, hiff⟩ := hd
  cases h with
  | ignored _ => exact ⟨hle, hiff⟩
  | within hgoing hwithin =>
    have hwindow : d.window ≠ limit := fun h => by simp [hgoing, h] at hiff
    have hnext : d.window + 1 ≠ limit := fun h => hwithin (congrArg some h.symm)
    exact ⟨by show d.window + 1 ≤ limit; omega, by simp [hgoing, hnext]⟩
  | confirmed hgoing _ _ => exact ⟨Nat.zero_le _, by simp [hgoing]; omega⟩
  | refused _ hfull _ =>
    have hwindow : d.window + 1 = limit := (Option.some.inj hfull).symm
    exact ⟨by show d.window + 1 ≤ limit; omega, by simp [hwindow]⟩

/-- At the end of a window that is still going, one question more is asked than before, about one window more. -/
theorem Paced.questions_full (hd : d.Paced limit n earlier replies) (hgoing : d.declined = false)
    (hfull : some limit = some (d.window + 1)) (reply : Answer) :
    d.total + 1 = (replies.length + 1) * limit ∧ d.questions ++ [question (d.total + 1) (d.window + 1)] =
      earlier ++ (List.range (replies ++ [reply]).length).map fun i => question ((i + 1) * limit) limit := by
  obtain ⟨-, htotal, hn, -⟩ := hd.going hgoing
  have hwindow : d.window + 1 = limit := (Option.some.inj hfull).symm
  have hmul : (replies.length + 1) * limit = replies.length * limit + limit := Nat.succ_mul _ _
  have hnext : d.total + 1 = (replies.length + 1) * limit := by omega
  refine ⟨hnext, ?_⟩
  rw [hd.questions, hnext, hwindow, List.length_append, List.length_singleton, List.range_succ, List.map_append,
    List.append_assoc]
  rfl

theorem Paced.counted {reply : Option Answer} (hd : d.Paced limit n earlier replies) (hlimit : 0 < limit)
    (h : d.Counted (some limit) reply e) : e.Paced limit (n + 1) earlier (replies ++ reply.toList) := by
  cases h with
  | ignored hdeclined =>
    obtain ⟨hreplies, hwindow, htotal, hle⟩ := hd.stopped hdeclined
    rw [Option.toList_none, List.append_nil]
    exact ⟨hd.questions, fun h => absurd h (by simp [hdeclined]), fun _ => ⟨hreplies, hwindow, htotal, by omega⟩⟩
  | within hgoing hwithin =>
    obtain ⟨hyes, htotal, hn, hlt⟩ := hd.going hgoing
    have hnext : d.window + 1 ≠ limit := fun h => hwithin (congrArg some h.symm)
    rw [Option.toList_none, List.append_nil]
    refine ⟨hd.questions, fun _ => ⟨hyes, congrArg (· + 1) htotal, ?_, ?_⟩, fun h => absurd h (by simp [hgoing])⟩
    · show n + 1 = replies.length * limit + (d.window + 1)
      omega
    · show d.window + 1 < limit
      omega
  | confirmed hgoing hfull hyes =>
    obtain ⟨hnext, hquestions⟩ := hd.questions_full hgoing hfull .yes
    obtain ⟨hall, htotal, hn, -⟩ := hd.going hgoing
    refine ⟨hquestions, fun _ => ⟨?_, congrArg (· + 1) htotal, ?_, hlimit⟩, fun h => absurd h (by simp [hgoing])⟩
    · simpa [or_imp, forall_and] using hall
    · rw [← htotal, hnext]
      simp
  | refused hgoing hfull hno =>
    obtain ⟨hnext, hquestions⟩ := hd.questions_full hgoing hfull (d.answers.headD .yes)
    obtain ⟨hall, htotal, hn, -⟩ := hd.going hgoing
    refine ⟨hquestions, fun h => ?_, fun _ => ⟨⟨replies, _, rfl, hall, hno⟩, ?_, ?_, ?_⟩⟩
    · cases h
    · exact (Option.some.inj hfull).symm
    · show d.total + 1 = _
      rw [hnext]
      simp
    · exact congrArg (· + 1) htotal |>.le

/-- Without a limit no question is asked. -/
theorem Counted.unlimited {reply : Option Answer} (h : d.Counted none reply e) :
    e.declined = d.declined ∧ e.questions = d.questions := by
  cases h with
  | ignored _ | within _ _ => exact ⟨rfl, rfl⟩
  | confirmed _ hfull _ | refused _ hfull _ => cases hfull

/-! ## Runs in numbers -/

theorem refusal_of_forall (h : ∀ a ∈ replies, a = .yes) : refusal replies = ⊤ := by
  have hnone : replies.findIdx? (· ≠ .yes) = none := by simpa [List.findIdx?_eq_none_iff] using h
  unfold refusal
  rw [hnone]

theorem refusal_append_singleton {last : Answer} (h : ∀ a ∈ replies, a = .yes) (hlast : last ≠ .yes) :
    refusal (replies ++ [last]) = (replies.length + 1 : Nat) := by
  have hnone : replies.findIdx? (· ≠ .yes) = none := by simpa [List.findIdx?_eq_none_iff] using h
  have hfound : (replies ++ [last]).findIdx? (· ≠ .yes) = some replies.length := by
    rw [List.findIdx?_append, hnone]
    simp [hlast]
  unfold refusal
  rw [hfound]

theorem Paced.law (hd : d.Paced limit n earlier replies) (hlimit : 0 < limit) :
    (d.total : ℕ∞) = min (n : ℕ∞) (refusal replies * limit) ∧
      d.questions = earlier ++ (List.range (min ((n / limit : Nat) : ℕ∞) (refusal replies)).toNat).map
        (fun i => question ((i + 1) * limit) limit) ∧
      (d.declined = true ↔ refusal replies * limit ≤ n) ∧ (d.declined = false → d.window = n % limit) := by
  cases hdeclined : d.declined with
  | false =>
    obtain ⟨hall, htotal, hn, hlt⟩ := hd.going hdeclined
    -- The window is smaller than its limit, so it is the remainder, and the questions are the quotient.
    have hasked : n / limit = replies.length := by
      rw [hn, Nat.mul_comm, Nat.mul_add_div hlimit, Nat.div_eq_of_lt hlt, Nat.add_zero]
    have htop : (⊤ : ℕ∞) * limit = ⊤ := ENat.top_mul (by simpa using hlimit.ne')
    rw [refusal_of_forall hall, htop, hasked]
    refine ⟨by simp [htotal], by simpa using hd.questions, by simp, fun _ => ?_⟩
    rw [hn, Nat.mul_comm, Nat.mul_add_mod, Nat.mod_eq_of_lt hlt]
  | true =>
    obtain ⟨⟨before, last, rfl, hall, hlast⟩, hwindow, htotal, hle⟩ := hd.stopped hdeclined
    rw [List.length_append, List.length_singleton] at htotal
    -- The refused question is the last one, so its number is that of all questions, and the total stands at its window.
    have hmul : ((before.length + 1 : Nat) : ℕ∞) * limit = (d.total : ℕ∞) := by
      rw [htotal]
      push_cast
      rfl
    have hasked : before.length + 1 ≤ n / limit := (Nat.le_div_iff_mul_le hlimit).2 (htotal ▸ hle)
    have hquestions := hd.questions
    rw [List.length_append, List.length_singleton] at hquestions
    rw [refusal_append_singleton hall hlast, hmul]
    refine ⟨?_, ?_, ?_, fun h => ?_⟩
    · rw [min_eq_right (Nat.cast_le.2 hle)]
    · rw [min_eq_right (Nat.cast_le.2 hasked), ENat.toNat_natCast]
      exact hquestions
    · simpa using hle
    · cases h

end Drive

theorem Options.window?_pos {o : Options} {limit : Nat} (h : o.window? = some limit) : 0 < limit := by
  unfold window? at h
  split at h
  · split at h
    · cases h
    · rename_i x _ hx
      rw [← Option.some.inj h]
      exact Nat.pos_of_ne_zero fun h0 => hx (UInt64.toNat_inj.1 h0)
  · cases h

namespace Replay

open Session

/-- Does the step report an instruction that was executed while step tracing is on? -/
def executes : Step → Bool
  | .event (.trace _ _) => true
  | _ => false

/-- The answers that the questions of a run get, in order. -/
def replies (r : Replay) (steps : List Step) : List Answer := (r.moments steps).filterMap fun m => m.1.reply? m.2

/-! ## Steps -/

variable {r : Replay} {step : Step}

theorem counted_of_executes (h : executes step = true) :
    r.drive.Counted r.options.window? (r.reply? step) (r.apply step).drive := by
  unfold executes at h
  split at h
  · exact r.counted_trace _ _
  · cases h

theorem ne_trace_of_not_executes (h : executes step = false) (thread pc : UInt64) :
    step ≠ .event (.trace thread pc) := by
  rintro rfl
  cases h

theorem idle_of_not_executes (h : executes step = false) (hstart : step ≠ .event .processStart)
    (henable : step ≠ .enableStepTrace) : r.drive.Idle (r.apply step).drive := by
  rw [drive_apply]
  exact r.drive.idle_apply _ _ _ (ne_trace_of_not_executes h) hstart henable

theorem reply?_of_not_executes (h : executes step = false) : r.reply? step = none :=
  r.reply?_eq_none (ne_trace_of_not_executes h)

/-- Once the user has declined, an executed instruction is neither traced nor painted nor counted. -/
theorem apply_trace_of_declined (h : r.progress.declined = true) (thread pc : UInt64) :
    let step := .event (.trace thread pc)
    r.call? step = none ∧ (r.apply step).progress = r.progress ∧ (r.apply step).findings = r.findings := by
  intro step
  have htrace : r.apply step = (r.stoppedAt (.trace thread pc)).onTrace thread pc := r.deliver_eq (.trace thread pc)
  have hstopped : (r.stoppedAt (.trace thread pc)).progress.declined = true := h
  rw [htrace, onTrace, if_pos hstopped]
  exact ⟨if_pos hstopped, rfl, rfl⟩

/-! ## Runs -/

theorem replies_append_singleton (r : Replay) (steps : List Step) (step : Step) :
    r.replies (steps ++ [step]) = r.replies steps ++ ((r.after steps).reply? step).toList := by
  unfold replies
  rw [moments_append_singleton, List.filterMap_append]
  cases h : (r.after steps).reply? step <;> simp [h]

theorem within_after {limit : Nat} (r : Replay) (hlimit : r.options.window? = some limit)
    (hr : r.drive.Within limit) (steps : List Step) : (r.after steps).drive.Within limit := by
  have hpos := Options.window?_pos hlimit
  -- A start of the process and the opening of step tracing both leave an empty window behind.
  have hempty {d : Drive} (hw : d.window = 0) (hd : d.declined = false) : d.Within limit :=
    ⟨by omega, by simp [hw, hd]; omega⟩
  induction steps using List.reverseRecOn with
  | nil => exact hr
  | append_singleton steps step ih =>
    have hoptions : (r.after steps).options.window? = some limit := by rw [r.options_after steps, hlimit]
    rw [after_append_singleton]
    cases hexecutes : executes step with
    | true => exact ih.counted hpos (hoptions ▸ counted_of_executes hexecutes)
    | false =>
      by_cases hstart : step = .event .processStart
      · rw [drive_apply, hstart]
        exact hempty rfl rfl
      · by_cases henable : step = .enableStepTrace
        · rw [drive_apply, henable]
          exact hempty rfl rfl
        · exact ih.idle (idle_of_not_executes hexecutes hstart henable)

/-- From the start of a process on, a run in which step tracing is not opened again is paced. -/
theorem paced_after {limit : Nat} (r : Replay) (hlimit : r.options.window? = some limit) (steps : List Step)
    (hsteps : ∀ s ∈ steps, s ≠ .event .processStart ∧ s ≠ .enableStepTrace) :
    let s := r.apply (.event .processStart)
    (s.after steps).drive.Paced limit (steps.countP executes) r.drive.questions (s.replies steps) := by
  intro s
  have hpos := Options.window?_pos hlimit
  induction steps using List.reverseRecOn with
  | nil =>
    have hdrive : s.drive = _ := r.drive_apply (.event .processStart)
    rw [show s.after [] = s from rfl, hdrive]
    exact ⟨(List.append_nil _).symm, fun _ => ⟨nofun, rfl, (Nat.zero_mul limit).symm, hpos⟩, nofun⟩
  | append_singleton steps step ih =>
    obtain ⟨hsteps, hstep⟩ := List.forall_mem_append.1 hsteps
    obtain ⟨hstart, henable⟩ := hstep step (List.mem_singleton_self step)
    have hoptions : (s.after steps).options.window? = some limit := by
      rw [s.options_after steps]
      exact (congrArg Options.window? (r.options_after [.event .processStart])).trans hlimit
    rw [after_append_singleton, replies_append_singleton, List.countP_append, List.countP_singleton]
    cases hexecutes : executes step with
    | true => exact (ih hsteps).counted hpos (hoptions ▸ counted_of_executes hexecutes)
    | false =>
      rw [reply?_of_not_executes hexecutes, Option.toList_none, List.append_nil]
      exact (ih hsteps).idle (idle_of_not_executes hexecutes hstart henable)

/-- Without a limit the user is never asked. -/
theorem unasked_after (r : Replay) (hlimit : r.options.window? = none) (hr : r.drive.declined = false)
    (steps : List Step) :
    (r.after steps).drive.declined = false ∧ (r.after steps).drive.questions = r.drive.questions := by
  induction steps using List.reverseRecOn with
  | nil => exact ⟨hr, rfl⟩
  | append_singleton steps step ih =>
    have hoptions : (r.after steps).options.window? = none := by rw [r.options_after steps, hlimit]
    rw [after_append_singleton]
    cases hexecutes : executes step with
    | true =>
      obtain ⟨hdeclined, hquestions⟩ := (hoptions ▸ counted_of_executes hexecutes).unlimited
      exact ⟨hdeclined.trans ih.1, hquestions.trans ih.2⟩
    | false =>
      by_cases hstart : step = .event .processStart
      · rw [drive_apply, hstart]
        exact ⟨rfl, ih.2⟩
      · by_cases henable : step = .enableStepTrace
        · rw [drive_apply, henable]
          exact ⟨rfl, ih.2⟩
        · have hidle := idle_of_not_executes (r := r.after steps) hexecutes hstart henable
          exact ⟨hidle.declined.trans ih.1, hidle.questions.trans ih.2⟩

/-- The law of the windows. Where the options set a limit, in every state of a run the window has not passed it, and has
reached it iff the user has declined to go on. From there let the process start, let `n` instructions be executed while
step tracing is on, with any other steps between them but a start of the process and the opening of step tracing, and
let `k` be the number of the first question that is not answered with yes. Then the instructions up to `k` windows are
counted, the user is asked at the end of each full window up to the one with the number `k`, and has declined iff `k`
windows were executed; until then the window holds the instructions behind the last full one, and after that an executed
instruction is neither traced nor painted nor counted. Without a limit the user is never asked and never declines. -/
theorem windows_after_start (options : Options) (image : Image) (steps : List Step) :
    let r := (start options image).after steps
    (∀ limit, options.window? = some limit →
      r.progress.window ≤ limit ∧ (r.progress.window = limit ↔ r.progress.declined = true) ∧
      ∀ stretch : List Step, (∀ s ∈ stretch, s ≠ .event .processStart ∧ s ≠ .enableStepTrace) →
        let n := stretch.countP executes
        let k := Drive.refusal ((r.apply (.event .processStart)).replies stretch)
        let t := r.after (.event .processStart :: stretch)
        (t.progress.total : ℕ∞) = min (n : ℕ∞) (k * limit) ∧
        t.debugger.questions.toList = r.debugger.questions.toList ++
          (List.range (min ((n / limit : Nat) : ℕ∞) k).toNat).map (fun i => question ((i + 1) * limit) limit) ∧
        (t.progress.declined = true ↔ k * limit ≤ n) ∧
        (t.progress.declined = false → t.progress.window = n % limit) ∧
        (t.progress.declined = true → ∀ thread pc,
          let step := .event (.trace thread pc)
          t.call? step = none ∧ (t.apply step).progress = t.progress ∧ (t.apply step).findings = t.findings)) ∧
    (options.window? = none → r.debugger.questions = #[] ∧ r.progress.declined = false) := by
  intro r
  have hoptions : r.options = options := (start options image).options_after steps
  refine ⟨fun limit hlimit => ?_, fun hlimit => ?_⟩
  · have hpos := Options.window?_pos hlimit
    have hstart : (start options image).drive.Within limit :=
      ⟨Nat.zero_le _, iff_of_false (Nat.ne_of_lt hpos) Bool.false_ne_true⟩
    have hwithin : r.drive.Within limit := within_after _ hlimit hstart steps
    refine ⟨hwithin.1, hwithin.2, fun stretch hstretch => ?_⟩
    intro n k t
    have hpaced := paced_after r (by rw [hoptions, hlimit]) stretch hstretch
    obtain ⟨htotal, hquestions, hdeclined, hwindow⟩ := hpaced.law hpos
    exact ⟨htotal, hquestions, hdeclined, hwindow, fun h => apply_trace_of_declined h⟩
  · obtain ⟨hdeclined, hquestions⟩ := unasked_after (start options image) hlimit rfl steps
    exact ⟨Array.toList_inj.1 hquestions, hdeclined⟩

/-- The windows have two instructions. The user confirms the first question and declines the second. -/
theorem windows_after_refusal :
    let options : Options := { limit := some 2 }
    let stretch := [.answer true, .event (.trace 0 0x1000), .answer false, .event (.trace 0 0x1001),
      .event (.stepInto 0 0x1002), .event (.trace 0 0x1002), .event (.trace 0 0x1000), .event (.trace 0 0x1001)]
    let r := start options {}
    options.window? = some 2 ∧ (∀ s ∈ stretch, s ≠ .event .processStart ∧ s ≠ .enableStepTrace) ∧
      Drive.refusal ((r.apply (.event .processStart)).replies stretch) = 2 ∧
      (r.after (.event .processStart :: stretch)).progress.total = 4 ∧
      (r.after (.event .processStart :: stretch)).progress.declined = true ∧
      (r.after (.event .processStart :: stretch)).debugger.questions.toList = [question 2 2, question 4 2] := by
  intro options stretch r
  have hlimit : options.window? = some 2 := by decide
  have hstretch : ∀ s ∈ stretch, s ≠ .event .processStart ∧ s ≠ .enableStepTrace := by decide
  have hreplies : (r.apply (.event .processStart)).replies stretch = [.yes, .no] := by decide +kernel
  have hrefusal : Drive.refusal ((r.apply (.event .processStart)).replies stretch) = 2 := by
    rw [hreplies]
    rfl
  have hcount : stretch.countP executes = 5 := by decide
  obtain ⟨-, -, hwindows⟩ := (windows_after_start options {} []).1 2 hlimit
  obtain ⟨htotal, hquestions, hdeclined, -⟩ := hwindows stretch hstretch
  rw [show (start options {}).after [] = r from rfl, hrefusal, hcount] at htotal hquestions hdeclined
  refine ⟨hlimit, hstretch, hrefusal, ?_, ?_, ?_⟩
  · have hmin : min ((5 : Nat) : ℕ∞) (2 * (2 : Nat)) = (4 : Nat) := by decide
    exact Nat.cast_inj.1 (htotal.trans hmin)
  · exact hdeclined.2 (by decide)
  · rw [hquestions]
    have hasked : (min ((5 / 2 : Nat) : ℕ∞) 2).toNat = 2 := by decide
    rw [hasked]
    rfl

end Replay

end TaintReplay
