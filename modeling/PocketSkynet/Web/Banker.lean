import PocketSkynet.Lib.Run
import PocketSkynet.Web.ChatTurns

/-!
# The Banker's Conversation

The Banker keeps a transcript on the device. A question goes to its end, the last twenty
entries are sent as they are, and the answer goes behind the question, be it a reply, the
text of a failure or the word that the turn took too many tool calls. The transcript is
written at the question and at the answer.

Nothing else is in it, and so it was taken to alternate by construction. It does so only
from its beginning and only where every question got its answer. A reload in the middle of a
turn leaves a question without one, and the next question stands behind it. And the window
of twenty ends with a question, so once it does not reach the beginning any more it begins
with an answer. `window_wellFormed_iff` says when neither happens.

The steps below are those of one device: a turn runs until the provider's text comes, the
page may be left and opened again, with the turn still running, or be loaded anew.

## Main definitions

* `State`, `Event`, `step`: The transcript, the turns that run, and what may happen.
* `Answered`: A transcript of questions with their answers.
* `Sound`: Every request sent so far is one the provider takes.
* `Ready`: What a question must find.

## Theorems

* `proper_start_iff`: The same for the request.
* `holds_step`, `ready_of_sound`: What a step keeps, and what a question needs for it.
* `conversations_iff`: The runs whose requests are all well formed.
-/

namespace PocketSkynet

namespace Banker

open Chat

/-- One message of the transcript. -/
structure StoredMsg where
  user : Bool
  text : String
  tools : List String
  images : List String
  ts : ℕ
deriving DecidableEq, Repr

/-- The stored transcript is capped at this many messages. -/
def historyCap : ℕ := 200

def capHistory (log : List StoredMsg) : List StoredMsg := newest historyCap log

def asTurn (m : StoredMsg) : ChatTurn := ⟨m.user, m.text⟩

/-- The newest entries of a transcript, with the question at their end. -/
def windowTurns (log : List StoredMsg) (question : String) : List ChatTurn :=
  let turns := (newest contextMessages log).map asTurn
  if (turns.getLast?.map fun turn => decide (turn.content ≠ question)).getD true then
    turns ++ [⟨true, question⟩]
  else turns

/-- A turn that runs: the transcript as the question left it, what the last request carried,
    and what is to be written with the answer. -/
structure Flight where
  provider : Provider
  system : String
  question : String
  log : List StoredMsg
  turns : List ChatTurn
  rounds : ℕ
  tools : List String
  images : List String
  mounted : Bool
deriving DecidableEq, Repr

/-- A request that was sent, with the question it is for and the transcript of that moment. -/
structure Request where
  log : List StoredMsg
  question : String
  body : Chat.Prepared
deriving DecidableEq, Repr

/-- The device: what is written on it, what the page shows, and the turns that run. `sent`
    holds the requests of all of them. -/
structure State where
  saved : List StoredMsg
  log : List StoredMsg
  busy : Bool
  flights : List Flight
  sent : List Request
deriving DecidableEq, Repr

/-- The page as it is opened over a written transcript. -/
def opened (saved : List StoredMsg) : State := ⟨saved, saved, false, [], []⟩

/-- What happens: the user asks, the provider answers the request of a running turn, the
    page is left and opened again, is loaded anew, or the transcript is cleared. -/
inductive Event
  | ask (draft : String) (provider : Option Provider) (system : String) (now : ℕ)
  | answer (turn : ℕ) (answer : Chat.Answer) (images : List String) (now : ℕ)
  | reopen
  | reload
  | clear
deriving DecidableEq, Repr

def questionMsg (question : String) (now : ℕ) : StoredMsg := ⟨true, question, [], [], now⟩

/-- The turn a question starts. -/
def start (s : State) (question : String) (provider : Provider) (system : String) (now : ℕ) :
    Flight :=
  let next := capHistory (s.log ++ [questionMsg question now])
  ⟨provider, system, question, next, windowTurns next question, 0, [], [], true⟩

/-- The request a turn sends. -/
def Flight.request (f : Flight) : Request :=
  ⟨f.log, f.question, chatRequest f.provider f.system f.turns⟩

def ask (s : State) (draft : String) (provider : Option Provider) (system : String) (now : ℕ) :
    State :=
  if isBlank draft || s.busy then s
  else
    match provider with
    | none => s
    | some provider =>
        let f := start s (trimmed draft) provider system now
        ⟨f.log, f.log, true, s.flights ++ [f], s.sent ++ [f.request]⟩

/-- The answer is written behind the question. The page shows it if it is still there. -/
def finish (s : State) (i : ℕ) (f : Flight) (text : String) (now : ℕ) : State :=
  let next := capHistory (f.log ++ [⟨false, text, f.tools, f.images, now⟩])
  { s with
    saved := next
    log := if f.mounted then next else s.log
    busy := if f.mounted then false else s.busy
    flights := s.flights.eraseIdx i }

/-- The turn after the call of a tool. -/
def Flight.called (f : Flight) (raw name result : String) (images : List String) : Flight :=
  { f with
    turns := f.turns ++ toolTurns raw name result
    rounds := f.rounds + 1
    tools := f.tools ++ [name]
    images := f.images ++ images }

variable (outOfSteam : String)

/-- What the provider's answer to a running turn does. -/
def answered (s : State) (i : ℕ) (f : Flight) (answer : Chat.Answer) (images : List String)
    (now : ℕ) : State :=
  match answer with
  | .failed error => finish s i f error now
  | .text reply => finish s i f reply now
  | .tool raw name result =>
      let next := f.called raw name result images
      if next.rounds < maxToolRounds then
        { s with flights := s.flights.set i next, sent := s.sent ++ [next.request] }
      else finish s i next outOfSteam now

/-- The page as it is mounted again. The turns of the one before go on without it. -/
def reopened (s : State) : State :=
  { s with
    log := s.saved
    busy := false
    flights := s.flights.map fun f => { f with mounted := false } }

def step (s : State) : Event → State
  | .ask draft provider system now => ask s draft provider system now
  | .answer i answer images now =>
      match s.flights[i]? with
      | some f => answered outOfSteam s i f answer images now
      | none => s
  | .reopen => reopened s
  | .reload => { reopened s with flights := [] }
  | .clear => { s with saved := [], log := [] }

/-- A transcript of questions, each with its answer. -/
def Answered : List StoredMsg → Prop
  | [] => True
  | [_] => False
  | q :: a :: rest => q.user = true ∧ a.user = false ∧ Answered rest

instance decidableAnswered : ∀ log : List StoredMsg, Decidable (Answered log)
  | [] => .isTrue trivial
  | [_] => .isFalse fun h => h
  | q :: a :: rest =>
      have := decidableAnswered rest
      inferInstanceAs (Decidable (q.user = true ∧ a.user = false ∧ Answered rest))

/-- Every request sent so far is a conversation the provider takes, with the end of the
    transcript and the whole question in it. -/
def Sound (s : State) : Prop :=
  ∀ r ∈ s.sent, Proper (r.log.map asTurn) r.question (carried r.body)

/-- What a question that is sent must find: every question before it has its answer, and the
    window reaches the first of them. -/
def Ready (s : State) : Event → Prop
  | .ask draft provider _ _ =>
      isBlank draft = false → s.busy = false → provider ≠ none →
        Answered s.log ∧ s.log.length < contextMessages
  | _ => True

instance decidableReady (s : State) : ∀ e, Decidable (Ready s e)
  | .ask draft provider _ _ =>
      inferInstanceAs (Decidable (isBlank draft = false → s.busy = false → provider ≠ none →
        Answered s.log ∧ s.log.length < contextMessages))
  | .answer _ _ _ _ => .isTrue trivial
  | .reopen => .isTrue trivial
  | .reload => .isTrue trivial
  | .clear => .isTrue trivial

-- A question makes a conversation of a transcript where every other one was answered.
theorem wellFormed_question {q : StoredMsg} (hq : q.user = true) : ∀ log : List StoredMsg,
    WellFormed ((log ++ [q]).map asTurn) ↔ Answered log
  | [] => by
      rw [List.nil_append, List.map_singleton, wellFormed_singleton]
      exact iff_of_true hq trivial
  | [a] => by
      refine iff_of_false (fun h => ?_) (fun h => h)
      have hodd := odd_length _ h
      simp at hodd
  | a :: b :: rest => by
      rw [List.cons_append, List.cons_append, List.map_cons, List.map_cons,
        wellFormed_cons_cons, wellFormed_question hq rest]
      rfl

/-- The window over a transcript with a new question is a conversation exactly when it
    reaches the beginning and every question before was answered: it ends with the user, so
    a full window, of twenty entries, cannot begin with the user and alternate. -/
theorem window_wellFormed_iff {q : StoredMsg} (hq : q.user = true) (log : List StoredMsg) :
    WellFormed ((newest contextMessages (log ++ [q])).map asTurn) ↔
      Answered log ∧ log.length < contextMessages := by
  rw [contextMessages, newest_concat]
  by_cases hshort : log.length < 20
  · have hzero : log.length - 19 = 0 := by omega
    rw [newest_eq, hzero, List.drop_zero, wellFormed_question hq log]
    exact (and_iff_left hshort).symm
  · refine iff_of_false (fun h => ?_) (fun h => hshort h.2)
    have hodd := odd_length _ h
    rw [List.length_map, List.length_append, List.length_singleton, newest_eq,
      List.length_drop] at hodd
    omega

-- The window is inside what the cap keeps, and ends with the question, so the question is not
-- added a second time.
theorem windowTurns_question (log : List StoredMsg) (question : String) (now : ℕ) :
    windowTurns (capHistory (log ++ [questionMsg question now])) question =
      (newest contextMessages (log ++ [questionMsg question now])).map asTurn := by
  unfold windowTurns capHistory
  rw [newest_newest (by simp [contextMessages, historyCap]), contextMessages, newest_concat,
    List.map_append, List.map_singleton]
  simp [asTurn, questionMsg]

/-- The first request of a turn is as it should be exactly when the question finds what it
    must find. -/
theorem proper_start_iff (s : State) (question : String) (provider : Provider)
    (system : String) (now : ℕ) :
    Proper ((start s question provider system now).log.map asTurn) question
        (start s question provider system now).turns ↔
      Answered s.log ∧ s.log.length < contextMessages := by
  have hturns : (start s question provider system now).turns =
      (newest contextMessages (s.log ++ [questionMsg question now])).map asTurn :=
    windowTurns_question s.log question now
  have hlog : (start s question provider system now).log =
      capHistory (s.log ++ [questionMsg question now]) := rfl
  rw [← window_wellFormed_iff (q := questionMsg question now) rfl s.log, hturns, hlog]
  constructor
  · exact fun h => h.wellFormed
  · intro h
    refine ⟨h, _, [], (List.append_nil _).symm, replays_suffix ?_, fun _ => ⟨"", ?_⟩⟩
    · -- The window is an end of the transcript.
      rw [capHistory, ← newest_newest (n := historyCap) (by simp [contextMessages, historyCap])]
      exact (newest_suffix _ _).map asTurn
    · rw [contextMessages, newest_concat, List.map_append, List.map_singleton,
        List.getLast?_concat]
      simp [asTurn, questionMsg]

/-- The turns that run are as they should be, and so is every request sent. -/
def Holds (s : State) : Prop :=
  (∀ f ∈ s.flights, Proper (f.log.map asTurn) f.question f.turns) ∧ Sound s

theorem holds_opened (saved : List StoredMsg) : Holds (opened saved) :=
  ⟨by simp [opened], by simp [Sound, opened]⟩

theorem holds_finish {s : State} (h : Holds s) (i : ℕ) (f : Flight) (text : String) (now : ℕ) :
    Holds (finish s i f text now) :=
  ⟨fun g hg => h.1 g ((List.eraseIdx_sublist s.flights i).subset hg), h.2⟩

-- Whatever the provider answers, the turn that runs stays as it should be.
theorem holds_answered {s : State} (h : Holds s) {i : ℕ} {f : Flight}
    (hf : s.flights[i]? = some f) (answer : Chat.Answer) (images : List String) (now : ℕ) :
    Holds (answered outOfSteam s i f answer images now) := by
  cases answer with
  | failed error => exact holds_finish h i f error now
  | text reply => exact holds_finish h i f reply now
  | tool raw name result =>
      have hcalled : Proper ((f.called raw name result images).log.map asTurn)
          (f.called raw name result images).question (f.called raw name result images).turns :=
        (h.1 f (List.mem_of_getElem? hf)).tool raw name result
      simp only [answered]
      by_cases hmore : (f.called raw name result images).rounds < maxToolRounds
      · rw [if_pos hmore]
        refine ⟨fun g hg => ?_, fun r hr => ?_⟩
        · rcases List.mem_or_eq_of_mem_set hg with hg | rfl
          · exact h.1 g hg
          · exact hcalled
        · rcases List.mem_append.1 hr with hr | hr
          · exact h.2 r hr
          · rw [List.mem_singleton.1 hr]
            simpa [Flight.request] using hcalled
      · rw [if_neg hmore]
        exact holds_finish h i _ outOfSteam now

-- A question that is not sent changes nothing.
theorem ask_of_not {s : State} {draft : String} {provider : Option Provider} (system : String)
    (now : ℕ) (h : ¬(isBlank draft = false ∧ s.busy = false ∧ provider ≠ none)) :
    ask s draft provider system now = s := by
  unfold ask
  by_cases hidle : (isBlank draft || s.busy) = true
  · rw [if_pos hidle]
  · rw [if_neg hidle]
    rw [Bool.not_eq_true, Bool.or_eq_false_iff] at hidle
    cases provider with
    | none => rfl
    | some p => exact absurd ⟨hidle.1, hidle.2, by simp⟩ h

theorem ask_of {s : State} {draft : String} (provider : Provider) (system : String) (now : ℕ)
    (hdraft : isBlank draft = false) (hbusy : s.busy = false) :
    ask s draft (some provider) system now =
      ⟨(start s (trimmed draft) provider system now).log,
        (start s (trimmed draft) provider system now).log, true,
        s.flights ++ [start s (trimmed draft) provider system now],
        s.sent ++ [(start s (trimmed draft) provider system now).request]⟩ := by
  unfold ask
  rw [hdraft, hbusy]
  rfl

/-- A step keeps every turn and every request as it should be, if it is a question that
    finds what it must find. -/
theorem holds_step (s : State) (e : Event) (h : Holds s) (hready : Ready s e) :
    Holds (step outOfSteam s e) := by
  cases e with
  | ask draft provider system now =>
      by_cases hsent : isBlank draft = false ∧ s.busy = false ∧ provider ≠ none
      · rcases hsent with ⟨hdraft, hbusy, hprovider⟩
        have hlog := hready hdraft hbusy hprovider
        cases provider with
        | none => exact absurd rfl hprovider
        | some p =>
            have hstart := (proper_start_iff s (trimmed draft) p system now).2 hlog
            rw [step, ask_of p system now hdraft hbusy]
            refine ⟨fun f hf => ?_, fun r hr => ?_⟩
            · rcases List.mem_append.1 hf with hf | hf
              · exact h.1 f hf
              · rw [List.mem_singleton.1 hf]
                exact hstart
            · rcases List.mem_append.1 hr with hr | hr
              · exact h.2 r hr
              · rw [List.mem_singleton.1 hr]
                simpa [Flight.request, start] using hstart
      · rw [step, ask_of_not system now hsent]
        exact h
  | answer i answer images now =>
      simp only [step]
      cases hf : s.flights[i]? with
      | none => exact h
      | some f => exact holds_answered outOfSteam h hf answer images now
  | reopen =>
      refine ⟨fun f hf => ?_, h.2⟩
      rcases List.mem_map.1 hf with ⟨g, hg, rfl⟩
      exact h.1 g hg
  | reload =>
      refine ⟨fun f hf => ?_, h.2⟩
      cases hf
  | clear => exact h

/-- And a question that is sent without it is a request the provider refuses. -/
theorem ready_of_sound (s : State) (e : Event) (hsound : Sound (step outOfSteam s e)) :
    Ready s e := by
  cases e with
  | ask draft provider system now =>
      intro hdraft hbusy hprovider
      cases provider with
      | none => exact absurd rfl hprovider
      | some p =>
          rw [step, ask_of p system now hdraft hbusy] at hsound
          have hrequest := hsound _ (List.mem_append_right _ (List.mem_singleton_self _))
          refine (proper_start_iff s (trimmed draft) p system now).1 ?_
          simpa [Flight.request, start] using hrequest
  | answer i answer images now => trivial
  | reopen => trivial
  | reload => trivial
  | clear => trivial

/-- The Banker's requests are all well formed in exactly the runs where each question finds
    a transcript of at most nine questions with their answers. Jarvis's requests are well
    formed whatever is in the room. -/
theorem conversations_iff (outOfSteam : String) (saved : List StoredMsg) (events : List Event) :
    (Run.Throughout (step outOfSteam) Sound (opened saved) events ↔
      Run.Along (step outOfSteam) Ready (opened saved) events) ∧
    (∀ (provider : Provider) (system : String) (lines : List RoomLine) (question : String)
      (answers : List Chat.Answer), ∀ body ∈ Chat.requests provider system lines question answers,
      Proper (sayable (asked lines question)) (trimmed question) (carried body)) :=
  ⟨Run.throughout_iff_along (J := Holds) (holds_step outOfSteam) (fun _ h => h.2)
      (fun s e _ => ready_of_sound outOfSteam s e) (opened saved) events (holds_opened saved),
    requests_proper⟩

/-- A question, the reload of the page in the middle of its turn, and the next question. -/
def interrupted : List Event :=
  [.ask "one" (some .anthropic) "" 1, .reload, .ask "two" (some .anthropic) "" 2]

/-- Ten questions with their answers, and the eleventh. -/
def eleven : List Event :=
  (List.range 10).flatMap (fun n =>
    [.ask "q" (some .anthropic) "" n, .answer 0 (.text "a") [] n]) ++
  [.ask "q" (some .anthropic) "" 10]

-- The second question of the one carries two turns of the user in a row, and the window over
-- the other begins with an answer.
theorem conversations_refused :
    ¬ (∀ (outOfSteam : String) (saved : List StoredMsg) (events : List Event),
        Run.Throughout (step outOfSteam) Sound (opened saved) events) ∧
      ¬ Run.Throughout (step "") Sound (opened []) interrupted ∧
      ¬ Run.Throughout (step "") Sound (opened []) eleven := by
  have hrefused : ∀ events : List Event,
      (∃ r ∈ (Run.run (step "") (opened []) events).sent, ¬ WellFormed (carried r.body)) →
      ¬ Run.Throughout (step "") Sound (opened []) events := by
    rintro events ⟨r, hr, hnot⟩ h
    exact hnot (Run.throughout_last (opened []) events h r hr).wellFormed
  have hinterrupted := hrefused interrupted (by decide +kernel)
  have heleven := hrefused eleven (by decide +kernel)
  exact ⟨fun h => hinterrupted (h "" [] interrupted), hinterrupted, heleven⟩

/-- Nine answered questions and a tenth keep the list in order, with a tool called for it. -/
def ten : List Event :=
  (List.range 9).flatMap (fun n =>
    [.ask "q" (some .gemini) "" n, .answer 0 (.text "a") [] n]) ++
  [.ask "q" (some .gemini) "" 9, .answer 0 (.tool "{}" "gas" "1") [] 9]

theorem conversations_ten :
    Run.Throughout (step "") Sound (opened []) ten ∧
      ∀ body ∈ Chat.requests .grok "" [⟨true, "hi"⟩, ⟨false, " a "⟩, ⟨false, ""⟩] "b" [],
        Proper (sayable (asked [⟨true, "hi"⟩, ⟨false, " a "⟩, ⟨false, ""⟩] "b"))
          (trimmed "b") (carried body) := by
  have hready : Run.Along (step "") Ready (opened []) ten := by decide +kernel
  exact ⟨(conversations_iff "" [] ten).1.2 hready,
    (conversations_iff "" [] ten).2 .grok "" [⟨true, "hi"⟩, ⟨false, " a "⟩, ⟨false, ""⟩] "b" []⟩

end Banker

end PocketSkynet
