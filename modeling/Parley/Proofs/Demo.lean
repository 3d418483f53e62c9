import Mathlib.Data.List.Infix
import Parley.Demo
import Parley.Text.Cut

/-!
# Games in the tavern

A game is played with a list of answers, one for each prompt.  However they are chosen, it ends in
one of three ways: the conversation is over, the answers have run out, or one of them consists of
digits that cannot be read as a number (`play_ends`).  At a choice an answer that is not the number
of an option changes nothing, and at most six answers lead on.

## Strategy

What an answer leads to does not depend on what has been written (`mute`), and there are few worlds
that a game comes to.
`endsWithin` goes through all of them: it follows every answer that leads on, and looks at what is
written on the way.  It is computed once (`endsWithin_opened`); the rest is by induction on the
answers.
-/

namespace Parley.Demo

variable {demo next : Demo} {answer : String} {answers : List String} {step : Step} {n : ℕ}

/-! ## What is written -/

/-- What is written in a trace, text by text. -/
def textsIn (trace : List TraceEntry) : List String :=
  trace.filterMap fun entry =>
    match entry with
    | .out _ text => some text
    | _ => none

/-- What has been written so far. -/
def texts (demo : Demo) : List String :=
  textsIn demo.trace

/-- A game without what has been written so far. -/
def mute (demo : Demo) : Demo :=
  { demo with trace := [] }

/-- Whether a text prompts the player. -/
def isPrompt (text : String) : Bool :=
  text = "> " || text = "(press enter)"

/-- Whether a text says nothing of the end. -/
def isQuiet (text : String) : Bool :=
  !decide ("--- end ---".toList <:+: text.toList) && !decide ("Goodbye.".toList <:+: text.toList)

theorem textsIn_append (before after : List TraceEntry) :
    textsIn (before ++ after) = textsIn before ++ textsIn after :=
  List.filterMap_append ..

theorem texts_prompt (demo : Demo) : demo.prompt.texts = demo.texts ++ [demo.promptText] :=
  textsIn_append ..

theorem texts_perform (demo : Demo) (step : Step) :
    (demo.perform step).texts = demo.texts ++ (demo.mute.perform step).texts :=
  textsIn_append ..

/-- The output is made of these texts, one behind the other. -/
theorem toList_output (demo : Demo) : demo.output.toList = demo.texts.flatMap String.toList := by
  have hjoin : ∀ (texts : List String) (text : String),
      (texts.foldl (· ++ ·) text).toList = text.toList ++ texts.flatMap String.toList := by
    intro texts
    induction texts with
    | nil => simp
    | cons first texts ih =>
        intro text
        rw [List.foldl_cons, ih, String.toList_append, List.append_assoc, List.flatMap_cons]
  exact hjoin demo.texts ""

theorem isPrompt_promptText (demo : Demo) : isPrompt demo.promptText = true := by
  rw [promptText]
  split <;> rfl

/-! ## What an answer leads to -/

/-- The option with a number on the line that the console shows. -/
def option? (demo : Demo) (number : ℕ) : Option Choice :=
  (demo.display?.bind Display.onScreen).bind fun ref =>
    Machine.optionAt? (demo.world.line ref) number

/-- The number of options on the line that the console shows. -/
def optionCount (demo : Demo) : ℕ :=
  (demo.display?.bind Display.onScreen).elim 0 fun ref => (demo.world.line ref).options.length

/-- Whether an answer has digits in the wide sense, and nothing else. -/
def isNumeral (answer : String) : Bool :=
  !answer.isEmpty && answer.toList.all Text.isDigit

/-- Whether an answer leads on: any answer if no choice is offered, and otherwise the number of an
option. -/
def accepts (demo : Demo) (answer : String) : Bool :=
  !demo.offersChoice ||
    isNumeral answer && ((Text.number? answer.toList).bind demo.option?).isSome

/-- Whether an answer to a choice consists of digits, but is no number. -/
def raises (demo : Demo) (answer : String) : Bool :=
  demo.offersChoice && isNumeral answer && (Text.number? answer.toList).isNone

/-- The steps by which answers lead on. -/
def replies (demo : Demo) : List Step :=
  if demo.offersChoice then
    (List.range demo.optionCount).map fun k : ℕ => .display "console" (.choose ↑(k + 1))
  else [.display "console" .proceed]

theorem mem_replies_of_option? (hchoice : demo.offersChoice = true)
    (h : (demo.option? n).isSome = true) :
    .display "console" (.choose n) ∈ demo.replies := by
  obtain ⟨choice, hchoice'⟩ := Option.isSome_iff_exists.mp h
  obtain ⟨ref, hscreen, hoption⟩ := Option.bind_eq_some_iff.mp hchoice'
  rw [replies, if_pos hchoice, List.mem_map]
  unfold Machine.optionAt? at hoption
  split at hoption
  · rename_i hpos
    have hlt := (List.getElem?_eq_some_iff.mp hoption).1
    refine ⟨n - 1, ?_, ?_⟩
    · rw [List.mem_range, optionCount, hscreen]
      dsimp only [Option.elim_some]
      omega
    · rw [Nat.sub_add_cancel (by omega)]
  · exact absurd hoption (by simp)

theorem run_of_isDone_step {m : Machine} (h : m.step.isDone = true) (fuel : ℕ) :
    Machine.run (fuel + 1) m = m.step := by
  rw [Machine.run]
  split
  · exact (Machine.step_of_isDone ‹_›).symm
  · exact Machine.run_of_isDone h fuel

theorem step_choose_of_none (h : demo.option? n = none) :
    ∃ log result, Machine.step
        { world := demo.world, agenda := [.perform (.display "console" (.choose n))] } =
      { world := demo.world, trace := TraceEntry.ofLog log, result } := by
  dsimp only [Machine.step, Machine.exec, Machine.perform, Machine.withDisplay]
  rw [option?, display?] at h
  cases hname : demo.world.displayNames.get? "console" with
  | none => exact ⟨[], _, rfl⟩
  | some d =>
      rw [hname, Option.bind_some] at h
      cases hdisplay : demo.world.display? d with
      | none =>
          rw [Option.bind_some, hdisplay]
          exact ⟨[], _, rfl⟩
      | some display =>
          rw [hdisplay, Option.bind_some] at h
          rw [Option.bind_some, hdisplay]
          dsimp only [Option.map_some, Machine.performDisplay]
          rw [h]
          exact ⟨[_], _, rfl⟩

/-- A number without an option is reported, and that is all. -/
theorem perform_choose_of_none (h : demo.option? n = none) :
    (demo.perform (.display "console" (.choose n))).mute = demo.mute ∧
      (demo.perform (.display "console" (.choose n))).texts = demo.texts := by
  obtain ⟨log, result, hstep⟩ := step_choose_of_none h
  have hrun : Machine.run fuel
      { world := demo.world, agenda := [.perform (.display "console" (.choose n))] } =
        { world := demo.world, trace := TraceEntry.ofLog log, result } := by
    rw [show fuel = 9999 + 1 from rfl, run_of_isDone_step (by rw [hstep]; rfl), hstep]
  have hnothing : ∀ {α : Type} (f : TraceEntry → Option α),
      (∀ level text cause, f (.log level text cause) = none) →
        (TraceEntry.ofLog log).filterMap f = [] := by
    intro α f hf
    rw [TraceEntry.ofLog, List.filterMap_map, List.filterMap_eq_nil_iff]
    exact fun entry _ => hf ..
  have hnoted : noted (TraceEntry.ofLog log) = [] := hnothing _ fun _ _ _ => rfl
  have hwritten : textsIn (TraceEntry.ofLog log) = [] := hnothing _ fun _ _ _ => rfl
  constructor
  · rw [perform, hrun, hnoted, List.append_nil]
    rfl
  · rw [texts, perform, hrun, textsIn_append, hwritten, List.append_nil, texts]

theorem respond_of_raises (h : demo.raises answer = true) :
    demo.respond answer = .error (.notNumber answer) := by
  simp only [raises, isNumeral, Bool.and_eq_true, Bool.not_eq_true', Option.isNone_iff_eq_none]
    at h
  obtain ⟨⟨hchoice, hsome, hdigits⟩, hnumber⟩ := h
  rw [respond, if_pos hchoice, if_neg (by simp [hsome, hdigits]), hnumber]

theorem accepts_of_raises (h : demo.raises answer = true) : demo.accepts answer = false := by
  simp only [raises, Bool.and_eq_true, Option.isNone_iff_eq_none] at h
  obtain ⟨⟨hchoice, hnumeral⟩, hnumber⟩ := h
  simp [accepts, hchoice, hnumber]

/-- An answer that leads on is one of the replies. -/
theorem exists_reply_of_accepts (h : demo.accepts answer = true) :
    ∃ step ∈ demo.replies, demo.respond answer = .ok (demo.perform step) := by
  rw [accepts] at h
  cases hchoice : demo.offersChoice with
  | false =>
      refine ⟨.display "console" .proceed, ?_, ?_⟩
      · simp [replies, hchoice]
      · rw [respond, if_neg (by simp [hchoice])]
  | true =>
      simp only [hchoice, Bool.not_true, Bool.false_or, isNumeral, Bool.and_eq_true,
        Bool.not_eq_true'] at h
      obtain ⟨⟨hsome, hdigits⟩, hoption⟩ := h
      obtain ⟨choice, hbind⟩ := Option.isSome_iff_exists.mp hoption
      obtain ⟨number, hnumber, hfound⟩ := Option.bind_eq_some_iff.mp hbind
      refine ⟨.display "console" (.choose number),
        mem_replies_of_option? hchoice (by simp [hfound]), ?_⟩
      rw [respond, if_pos hchoice, if_neg (by simp [hsome, hdigits]), hnumber]

/-- Any other answer changes nothing. -/
theorem respond_of_refused (haccepts : demo.accepts answer = false)
    (hraises : demo.raises answer = false) :
    ∃ next, demo.respond answer = .ok next ∧ next.mute = demo.mute ∧
      next.texts = demo.texts := by
  simp only [accepts, Bool.or_eq_false_iff, Bool.not_eq_false'] at haccepts
  obtain ⟨hchoice, hrefused⟩ := haccepts
  rw [respond, if_pos hchoice]
  split
  · exact ⟨demo, rfl, rfl, rfl⟩
  · rename_i hdigits
    have hnumeral : isNumeral answer = true := by simpa [isNumeral] using hdigits
    rw [raises, hchoice, hnumeral, Bool.true_and, Bool.true_and] at hraises
    rw [hnumeral, Bool.true_and] at hrefused
    cases hnumber : Text.number? answer.toList with
    | none => exact absurd hraises (by simp [hnumber])
    | some number =>
        rw [hnumber, Option.bind_some] at hrefused
        obtain ⟨hmute, htexts⟩ := perform_choose_of_none (Option.not_isSome_iff_eq_none.mp
          (by simp [hrefused]) : demo.option? number = none)
        exact ⟨_, rfl, hmute, htexts⟩

/-! ## All that can happen -/

/-- Whether a text is neither a prompt nor says anything of the end. -/
def isPlain (text : String) : Bool :=
  isQuiet text && !isPrompt text

/-- Whether finishing writes the closing texts, each once. -/
def closes (demo : Demo) : Bool :=
  demo.mute.finish.texts = ["--- end ---\n", "Goodbye.\n"]

/-- Whether the conversation is over after at most so many answers that lead on, however they are
chosen.  On the way plain texts are written, and none by the last answer. -/
def endsWithin : ℕ → Demo → Bool
  | 0, demo => demo.isOver && demo.closes
  | n + 1, demo =>
    if demo.isOver then demo.closes
    else demo.replies.all fun step =>
      let next := demo.mute.perform step
      next.texts.all isPlain && (!next.isOver || next.texts.isEmpty) && endsWithin n next

/-- Nothing of this depends on what has been written. -/
theorem endsWithin_congr (h : next.mute = demo.mute) : next.endsWithin n = demo.endsWithin n := by
  have hmute : ∀ demo : Demo, demo.mute.endsWithin n = demo.endsWithin n := by
    intro demo
    cases n <;> rfl
  rw [← hmute next, h, hmute]

theorem closes_of_endsWithin (h : demo.endsWithin n = true) (hover : demo.isOver = true) :
    demo.closes = true := by
  cases n with
  | zero =>
      rw [endsWithin, Bool.and_eq_true] at h
      exact h.2
  | succ n =>
      rw [endsWithin, if_pos hover] at h
      exact h

/-- What an answer leads to that leads on. -/
theorem endsWithin_reply (h : demo.endsWithin n = true) (hopen : demo.isOver = false)
    (hstep : step ∈ demo.replies) :
    ∃ k, n = k + 1 ∧ (∀ text ∈ (demo.mute.perform step).texts, isPlain text = true) ∧
      ((demo.mute.perform step).isOver = true → (demo.mute.perform step).texts = []) ∧
      (demo.mute.perform step).endsWithin k = true := by
  cases n with
  | zero =>
      rw [endsWithin, hopen, Bool.false_and] at h
      exact absurd h (by simp)
  | succ k =>
      rw [endsWithin, if_neg (by simp [hopen]), List.all_eq_true] at h
      have hnext := h step hstep
      simp only [Bool.and_eq_true, List.all_eq_true, Bool.or_eq_true, Bool.not_eq_true',
        List.isEmpty_iff] at hnext
      obtain ⟨⟨hplain, hover⟩, hends⟩ := hnext
      exact ⟨k, rfl, hplain, fun h => hover.resolve_left (by simp [h]), hends⟩

/-- From the first line on the conversation is over after at most six answers that lead on. -/
theorem endsWithin_opened : opened.endsWithin 6 = true ∧
    opened.texts.all isPlain = true ∧ opened.isOver = false := by
  decide +kernel

/-! ## Playing -/

/-- Every prompt of a game with its answer. -/
def asked (demo : Demo) : List String → List (Demo × String)
  | [] => []
  | answer :: answers =>
    if demo.isOver then []
    else (demo, answer) ::
      match demo.prompt.respond answer with
      | .ok next => next.asked answers
      | .error _ => []

/-- How far a game has got: the answers that it still takes at most, and the prompts so far. -/
structure Poised (n prompts : ℕ) (demo : Demo) : Prop where
  ends : demo.endsWithin n = true
  quiet : ∀ text ∈ demo.texts, isQuiet text = true
  prompted : demo.texts.countP isPrompt = prompts
  last : demo.isOver = true → ∃ before prompt,
    isPrompt prompt = true ∧ demo.texts = before ++ [prompt]

/-- How a game ends. -/
inductive Ends (prompts : ℕ) (asked : List (Demo × String)) (answers : List String) :
    Demo × Except Failure Unit → Prop
  /-- The conversation is over.  The closing texts are written after the last prompt. -/
  | concluded {last : Demo} {before left : List String} {prompt : String}
      (hanswers : answers = asked.map Prod.snd ++ left)
      (hread : ∀ p ∈ asked, p.1.raises p.2 = false)
      (htexts : last.texts = before ++ [prompt, "--- end ---\n", "Goodbye.\n"])
      (hprompt : isPrompt prompt = true) (hquiet : ∀ text ∈ before, isQuiet text = true)
      (hcount : last.texts.countP isPrompt = prompts + asked.length) :
      Ends prompts asked answers (last, .ok ())
  /-- All answers have been taken, and another is asked for. -/
  | endOfInput {last : Demo} (hanswers : answers = asked.map Prod.snd)
      (hread : ∀ p ∈ asked, p.1.raises p.2 = false)
      (hquiet : ∀ text ∈ last.texts, isQuiet text = true)
      (hcount : last.texts.countP isPrompt = prompts + asked.length + 1) :
      Ends prompts asked answers (last, .error .endOfInput)
  /-- An answer to a choice has digits, but is no number; it is the first of that kind. -/
  | notNumber {last demo : Demo} {before : List (Demo × String)} {answer : String}
      {left : List String} (hasked : asked = before ++ [(demo, answer)])
      (hanswers : answers = asked.map Prod.snd ++ left)
      (hread : ∀ p ∈ before, p.1.raises p.2 = false) (hraises : demo.raises answer = true)
      (hworld : last.world = demo.world)
      (hquiet : ∀ text ∈ last.texts, isQuiet text = true)
      (hcount : last.texts.countP isPrompt = prompts + asked.length) :
      Ends prompts asked answers (last, .error (.notNumber answer))

variable {prompts : ℕ}

theorem isQuiet_of_isPrompt {text : String} (h : isPrompt text = true) : isQuiet text = true := by
  simp only [isPrompt, Bool.or_eq_true, decide_eq_true_eq] at h
  rcases h with rfl | rfl <;> decide +kernel

theorem Poised.quiet_prompt (h : Poised n prompts demo) :
    ∀ text ∈ demo.prompt.texts, isQuiet text = true := by
  rw [texts_prompt]
  exact List.forall_mem_append.mpr ⟨h.quiet, by
    simpa using isQuiet_of_isPrompt demo.isPrompt_promptText⟩

theorem Poised.prompted_prompt (h : Poised n prompts demo) :
    demo.prompt.texts.countP isPrompt = prompts + 1 := by
  rw [texts_prompt, List.countP_append, h.prompted, List.countP_singleton,
    if_pos demo.isPrompt_promptText]

/-- An answer that leads on leaves fewer of them. -/
theorem Poised.reply (h : Poised n prompts demo) (hopen : demo.isOver = false)
    (hstep : step ∈ demo.prompt.replies) :
    ∃ k, n = k + 1 ∧ Poised k (prompts + 1) (demo.prompt.perform step) := by
  obtain ⟨k, rfl, hplain, hover, hends⟩ := endsWithin_reply h.ends hopen hstep
  have htexts := texts_perform demo.prompt step
  have hmute : (demo.prompt.perform step).mute = (demo.mute.perform step).mute := rfl
  refine ⟨k, rfl, (endsWithin_congr hmute).trans hends, ?_, ?_, fun hnext => ?_⟩
  · rw [htexts]
    refine List.forall_mem_append.mpr ⟨h.quiet_prompt, fun text htext => ?_⟩
    have := hplain text htext
    rw [isPlain, Bool.and_eq_true] at this
    exact this.1
  · have hnone : (demo.mute.perform step).texts.countP isPrompt = 0 := by
      refine List.countP_eq_zero.mpr fun text htext => ?_
      have := hplain text htext
      rw [isPlain, Bool.and_eq_true] at this
      simpa using this.2
    rw [htexts, List.countP_append, h.prompted_prompt]
    exact congrArg (prompts + 1 + ·) hnone
  -- The answer that ends the conversation writes nothing, so the prompt stays last.
  · refine ⟨demo.texts, demo.promptText, demo.isPrompt_promptText, ?_⟩
    have hempty : (demo.prompt.mute.perform step).texts = [] := hover hnext
    rw [htexts, hempty, List.append_nil, texts_prompt]

/-- An answer that is refused leaves as many. -/
theorem Poised.refused (h : Poised n prompts demo) (hopen : demo.isOver = false)
    (hmute : next.mute = demo.mute) (htexts : next.texts = demo.prompt.texts) :
    Poised n (prompts + 1) next := by
  refine ⟨(endsWithin_congr hmute).trans h.ends, htexts ▸ h.quiet_prompt,
    htexts ▸ h.prompted_prompt, fun hover => ?_⟩
  have hsame : next.isOver = demo.isOver := (congrArg isOver hmute :)
  exact absurd (hsame.symm.trans hover) (by simp [hopen])

/-- An answer that can be read leaves as many of those that lead on, or one fewer. -/
theorem Poised.answered (h : Poised n prompts demo) (hopen : demo.isOver = false)
    (hraises : demo.raises answer = false) :
    ∃ k next, demo.prompt.respond answer = .ok next ∧ Poised k (prompts + 1) next ∧
      n = k + if demo.accepts answer = true then 1 else 0 := by
  cases haccepts : demo.accepts answer with
  | true =>
      obtain ⟨step, hstep, hnext⟩ :=
        exists_reply_of_accepts (show demo.prompt.accepts answer = true from haccepts)
      obtain ⟨k, hk, hpoised⟩ := h.reply hopen hstep
      exact ⟨k, _, hnext, hpoised, hk⟩
  | false =>
      obtain ⟨next, hnext, hmute, htexts⟩ := respond_of_refused
        (show demo.prompt.accepts answer = false from haccepts) hraises
      exact ⟨n, next, hnext, h.refused hopen hmute htexts, rfl⟩

/-- When the conversation is over the closing texts are written. -/
theorem Poised.finish (h : Poised n prompts demo) (hover : demo.isOver = true)
    (answers : List String) : Ends prompts [] answers (demo.finish, .ok ()) := by
  obtain ⟨before, prompt, hprompt, hlast⟩ := h.last hover
  have hcloses := closes_of_endsWithin h.ends hover
  rw [closes, decide_eq_true_eq] at hcloses
  have htexts : demo.finish.texts = demo.texts ++ ["--- end ---\n", "Goodbye.\n"] := by
    rw [Demo.finish, texts_perform]
    exact congrArg (demo.texts ++ ·) hcloses
  have hwhole : demo.finish.texts = before ++ [prompt, "--- end ---\n", "Goodbye.\n"] := by
    rw [htexts, hlast, List.append_assoc]
    rfl
  have hquiet : ∀ text ∈ before, isQuiet text = true := fun text htext =>
    h.quiet text (hlast ▸ List.mem_append_left _ htext)
  refine .concluded (List.nil_append answers).symm (by simp) hwhole hprompt hquiet ?_
  rw [htexts, List.countP_append, h.prompted]
  rfl

theorem Ends.cons {result : Demo × Except Failure Unit} {asked : List (Demo × String)}
    (h : Ends (prompts + 1) asked answers result) (hraises : demo.raises answer = false) :
    Ends prompts ((demo, answer) :: asked) (answer :: answers) result := by
  have hcount : prompts + 1 + asked.length = prompts + ((demo, answer) :: asked).length := by
    rw [List.length_cons]
    omega
  cases h with
  | concluded hanswers hread htexts hprompt hquiet hall =>
      exact .concluded (by rw [hanswers]; rfl) (List.forall_mem_cons.mpr ⟨hraises, hread⟩) htexts
        hprompt hquiet (hcount ▸ hall)
  | endOfInput hanswers hread hquiet hall =>
      exact .endOfInput (by rw [hanswers]; rfl) (List.forall_mem_cons.mpr ⟨hraises, hread⟩) hquiet
        (hcount ▸ hall)
  | notNumber hasked hanswers hread hraised hworld hquiet hall =>
      have hlast := congrArg ((demo, answer) :: ·) hasked
      exact .notNumber hlast (by rw [hanswers]; rfl)
        (List.forall_mem_cons.mpr ⟨hraises, hread⟩) hraised hworld hquiet (hcount ▸ hall)

theorem Poised.ends_play (h : Poised n prompts demo) (answers : List String) :
    Ends prompts (demo.asked answers) answers (demo.play answers) := by
  -- The induction is on the answers that are left.
  induction answers generalizing n prompts demo with
  | nil =>
      rw [play, asked]
      cases hover : demo.isOver with
      | true => exact h.finish hover []
      | false => exact .endOfInput rfl (by simp) h.quiet_prompt (by simpa using h.prompted_prompt)
  | cons answer answers ih =>
      rw [play, asked]
      cases hover : demo.isOver with
      | true => exact h.finish hover (answer :: answers)
      | false =>
          rw [if_neg Bool.false_ne_true, if_neg Bool.false_ne_true]
          cases hraises : demo.raises answer with
          | true =>
              rw [respond_of_raises (show demo.prompt.raises answer = true from hraises)]
              exact .notNumber (List.nil_append _).symm rfl (by simp) hraises rfl h.quiet_prompt
                h.prompted_prompt
          | false =>
              obtain ⟨k, next, hnext, hpoised, -⟩ := h.answered hover hraises
              rw [hnext]
              exact (ih hpoised).cons hraises

/-- Of all answers, no more lead on than are left. -/
theorem Poised.countP_accepts_le (h : Poised n prompts demo) (answers : List String) :
    (demo.asked answers).countP (fun p => p.1.accepts p.2) ≤ n := by
  induction answers generalizing n prompts demo with
  | nil => exact Nat.zero_le n
  | cons answer answers ih =>
      rw [asked]
      cases hover : demo.isOver with
      | true => exact Nat.zero_le n
      | false =>
          rw [if_neg Bool.false_ne_true]
          cases hraises : demo.raises answer with
          | true =>
              have hrefused := accepts_of_raises hraises
              rw [respond_of_raises (show demo.prompt.raises answer = true from hraises)]
              simp [hrefused]
          | false =>
              obtain ⟨k, next, hnext, hpoised, rfl⟩ := h.answered hover hraises
              rw [hnext, List.countP_cons]
              exact Nat.add_le_add_right (ih hpoised) _

theorem poised_opened : Poised 6 0 opened := by
  obtain ⟨hends, hplain, hopen⟩ := endsWithin_opened
  rw [List.all_eq_true] at hplain
  have hboth : ∀ text ∈ opened.texts, isQuiet text = true ∧ isPrompt text = false := by
    intro text htext
    have := hplain text htext
    rwa [isPlain, Bool.and_eq_true, Bool.not_eq_true'] at this
  refine ⟨hends, fun text htext => (hboth text htext).1, ?_, fun hover => ?_⟩
  · exact List.countP_eq_zero.mpr fun text htext => by simp [(hboth text htext).2]
  · exact absurd (hopen.symm.trans hover) (by simp)

/-- However a game is played, it takes the answers in order, one for each prompt, and ends because
the conversation is over, because there are no more answers, or because of digits that are no
number, given to a choice.  At most six answers lead on; any other answer to a choice that does not
end the game leaves everything as it is. -/
theorem play_ends (answers : List String) :
    Ends 0 (opened.asked answers) answers (opened.play answers) ∧
      (opened.asked answers).countP (fun p => p.1.accepts p.2) ≤ 6 ∧
      ∀ p ∈ opened.asked answers, p.1.accepts p.2 = false → p.1.raises p.2 = false →
        ∃ next, p.1.prompt.respond p.2 = .ok next ∧ next.world = p.1.world ∧
          next.endings = p.1.endings ∧ next.texts = p.1.prompt.texts := by
  refine ⟨poised_opened.ends_play answers, poised_opened.countP_accepts_le answers, ?_⟩
  intro p _ haccepts hraises
  obtain ⟨next, hnext, hmute, htexts⟩ :=
    respond_of_refused (show p.1.prompt.accepts p.2 = false from haccepts) hraises
  exact ⟨next, hnext, (congrArg Demo.world hmute :), (congrArg Demo.endings hmute :), htexts⟩

theorem play_ends_hesitant :
    (opened.asked ["", "x", "3"]).map (fun p => (p.2, p.1.accepts p.2, p.1.raises p.2)) =
        [("", true, false), ("x", false, false), ("3", true, false)] ∧
      Ends 0 (opened.asked ["", "x", "3"]) ["", "x", "3"] (opened.play ["", "x", "3"]) ∧
      ∃ p ∈ opened.asked ["", "x", "3"], p.2 = "x" ∧
        ∃ next, p.1.prompt.respond p.2 = .ok next ∧ next.world = p.1.world := by
  have hflags :
      (opened.asked ["", "x", "3"]).map (fun p => (p.2, p.1.accepts p.2, p.1.raises p.2)) =
        [("", true, false), ("x", false, false), ("3", true, false)] := by decide +kernel
  obtain ⟨hends, -, hrefused⟩ := play_ends ["", "x", "3"]
  have hmem : ("x", false, false) ∈
      (opened.asked ["", "x", "3"]).map (fun p => (p.2, p.1.accepts p.2, p.1.raises p.2)) := by
    simp [hflags]
  obtain ⟨p, hp, heq⟩ := List.mem_map.mp hmem
  simp only [Prod.mk.injEq] at heq
  obtain ⟨hx, haccepts, hraises⟩ := heq
  obtain ⟨next, hnext, hworld, -⟩ := hrefused p hp haccepts hraises
  exact ⟨hflags, hends, p, hp, hx, next, hnext, hworld⟩

/-- The player leaves at once.  The first closing text is written behind the prompt, in one row. -/
theorem end_behind_prompt :
    (opened.play ["", "3"]).2.isOk = true ∧
      "--- end ---".toList ∉ Text.pieces '\n' (opened.play ["", "3"]).1.output.toList ∧
      "> --- end ---".toList ∈ Text.pieces '\n' (opened.play ["", "3"]).1.output.toList := by
  rw [toList_output]
  decide +kernel

end Parley.Demo
