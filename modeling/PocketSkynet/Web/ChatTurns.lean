import Mathlib.Data.List.Basic
import Mathlib.Data.List.Chain
import PocketSkynet.Lib.Text

/-!
# The Turns of a Provider Request

A request to an AI provider carries a conversation: turns of the user and turns of the
model. The providers refuse a list that does not begin with the user, that does not
alternate, or that ends with the model. `WellFormed` says when they take it.

Jarvis builds the list from the lines of a room. It takes the last twenty, skips the blank
ones, merges what one side said in a row into one turn and sheds what the agent says before
the first turn of the user. A tool call adds two turns at the end, the model's own words and
the result, and another request is sent, at most eight in all.

Each turn of a request stands for a group of lines of one side, and the groups in a row are
the end of what was said (`Replays`). A line of the window joins the last group, opens a
group of its own or is shed (`gathers_pushTurn`), so an induction over the window gives both
the form of the list and what it says.

## Main definitions

* `ChatTurn`, `WellFormed`: A turn, and the lists of turns a provider takes.
* `chatRequest`, `carried`: The body of a request, and the conversation it carries.
* `turns`: The conversation made from the lines of a room.
* `requests`: The requests of one answer of Jarvis.
* `Replays`: Turns that tell the end of a transcript, in order.
* `Proper`: A request that tells the end of a transcript and that a provider takes.
* `newest`: The last entries of a list.

## Theorems

* `carried_chatRequest`: Each provider is sent the turns as they are.
* `odd_length`: A conversation has an odd number of turns.
* `requests_proper`: Every request of Jarvis is well formed and replays the room's end.
-/

namespace PocketSkynet

namespace Chat

/-- One turn of a conversation: of the user, or of the model. -/
structure ChatTurn where
  user : Bool
  content : String
deriving DecidableEq, Repr

inductive Provider
  | grok
  | openAi
  | anthropic
  | gemini
deriving DecidableEq, Repr

/-- What a request's body says: the instruction where it has a place of its own, and the
    messages with their roles. -/
structure Prepared where
  instruction : Option String
  messages : List (String × String)
deriving DecidableEq, Repr

def roleOf (assistant : String) (turn : ChatTurn) : String × String :=
  (if turn.user then "user" else assistant, turn.content)

/-- The body of a chat request. Two providers take the instruction as the first message. -/
def chatRequest (provider : Provider) (system : String) (turns : List ChatTurn) : Prepared :=
  match provider with
  | .grok | .openAi => ⟨none, ("system", system) :: turns.map (roleOf "assistant")⟩
  | .anthropic => ⟨some system, turns.map (roleOf "assistant")⟩
  | .gemini => ⟨some system, turns.map (roleOf "model")⟩

/-- The conversation in a body, read by its roles. -/
def carried (body : Prepared) : List ChatTurn :=
  (body.messages.filter fun m => m.1 ≠ "system").map fun m => ⟨m.1 = "user", m.2⟩

-- A role tells the side it was written for.
theorem carried_roles {assistant : String} (hsystem : assistant ≠ "system")
    (huser : assistant ≠ "user") (turns : List ChatTurn) :
    ((turns.map (roleOf assistant)).filter fun m => m.1 ≠ "system").map
      (fun m => (⟨m.1 = "user", m.2⟩ : ChatTurn)) = turns := by
  induction turns with
  | nil => rfl
  | cons turn turns ih =>
      rcases turn with ⟨user, content⟩
      cases user <;> simpa [roleOf, hsystem, huser] using ih

@[simp] theorem carried_chatRequest (provider : Provider) (system : String)
    (turns : List ChatTurn) : carried (chatRequest provider system turns) = turns := by
  cases provider with
  | grok => exact carried_roles (by decide) (by decide) turns
  | openAi => exact carried_roles (by decide) (by decide) turns
  | anthropic => exact carried_roles (by decide) (by decide) turns
  | gemini => exact carried_roles (by decide) (by decide) turns

/-- The list of turns begins with the user, alternates strictly and ends with the user. -/
structure WellFormed (turns : List ChatTurn) : Prop where
  begins : turns.head?.map ChatTurn.user = some true
  alternates : turns.IsChain fun t u => t.user ≠ u.user
  ends : turns.getLast?.map ChatTurn.user = some true

instance (turns : List ChatTurn) : Decidable (WellFormed turns) :=
  decidable_of_iff (turns.head?.map ChatTurn.user = some true ∧
      turns.IsChain (fun t u => t.user ≠ u.user) ∧
      turns.getLast?.map ChatTurn.user = some true)
    ⟨fun h => ⟨h.1, h.2.1, h.2.2⟩, fun h => ⟨h.begins, h.alternates, h.ends⟩⟩

theorem wellFormed_singleton (turn : ChatTurn) : WellFormed [turn] ↔ turn.user = true := by
  constructor
  · intro h
    simpa using h.begins
  · intro h
    exact ⟨by simpa using h, List.isChain_singleton turn, by simpa using h⟩

/-- A conversation of more than one turn is a turn of the user, a turn of the model and a
    conversation. -/
theorem wellFormed_cons_cons (t u : ChatTurn) (rest : List ChatTurn) :
    WellFormed (t :: u :: rest) ↔ t.user = true ∧ u.user = false ∧ WellFormed rest := by
  constructor
  · intro h
    have ht : t.user = true := by simpa using h.begins
    rcases List.isChain_cons_cons.1 h.alternates with ⟨htu, hchain⟩
    have hu : u.user = false := by simpa [ht] using htu
    refine ⟨ht, hu, ?_⟩
    -- The turn of the model is not the last one.
    cases rest with
    | nil =>
        have hends := h.ends
        simp [hu] at hends
    | cons v rest =>
        rcases List.isChain_cons_cons.1 hchain with ⟨huv, hrest⟩
        refine ⟨by simpa [hu] using huv, hrest, ?_⟩
        simpa using h.ends
  · rintro ⟨ht, hu, hrest⟩
    cases rest with
    | nil =>
        have hbegins := hrest.begins
        simp at hbegins
    | cons v rest =>
        have hv : v.user = true := by simpa using hrest.begins
        refine ⟨by simpa using ht, ?_, by simpa using hrest.ends⟩
        rw [List.isChain_cons_cons, List.isChain_cons_cons]
        exact ⟨by simp [ht, hu], by simp [hu, hv], hrest.alternates⟩

theorem odd_length : ∀ turns : List ChatTurn, WellFormed turns → turns.length % 2 = 1
  | [], h => by
      have hbegins := h.begins
      simp at hbegins
  | [_], _ => rfl
  | t :: u :: rest, h => by
      have hrest := odd_length rest ((wellFormed_cons_cons t u rest).1 h).2.2
      rw [List.length_cons, List.length_cons]
      omega

/-- The two turns a tool call adds: the model's words, and the result as the user's. -/
def toolTurns (raw name result : String) : List ChatTurn :=
  [⟨false, raw⟩, ⟨true, "[TOOL RESULT " ++ name ++ "] " ++ result⟩]

-- With a tool call behind it, a conversation stays one.
theorem wellFormed_toolTurns (raw name result : String) : ∀ turns : List ChatTurn,
    WellFormed turns → WellFormed (turns ++ toolTurns raw name result)
  | [], h => by
      have hbegins := h.begins
      simp at hbegins
  | [t], h => by
      have ht := (wellFormed_singleton t).1 h
      refine (wellFormed_cons_cons t ⟨false, raw⟩ [_]).2 ⟨ht, rfl, ?_⟩
      exact (wellFormed_singleton _).2 rfl
  | t :: u :: rest, h => by
      rcases (wellFormed_cons_cons t u rest).1 h with ⟨ht, hu, hrest⟩
      exact (wellFormed_cons_cons t u _).2 ⟨ht, hu, wellFormed_toolTurns raw name result rest hrest⟩

/-- What was said in a row by one side, as one turn. -/
def merged : List ChatTurn → ChatTurn
  | [] => ⟨true, ""⟩
  | turn :: rest =>
      ⟨turn.user, rest.foldl (fun text next => text ++ "\n" ++ next.content) turn.content⟩

/-- Groups of what one side said in a row. -/
def OneSided (group : List ChatTurn) : Prop :=
  group ≠ [] ∧ ∀ turn ∈ group, turn.user = (merged group).user

/-- The turns tell the end of what was said, in order: each stands for a group of one side,
    and the groups in a row are the last things said. -/
def Replays (said turns : List ChatTurn) : Prop :=
  ∃ groups : List (List ChatTurn),
    groups.flatten <:+ said ∧ (∀ group ∈ groups, OneSided group) ∧ turns = groups.map merged

-- What is told as it was said.
theorem replays_suffix {said turns : List ChatTurn} (h : turns <:+ said) :
    Replays said turns := by
  refine ⟨turns.map fun turn => [turn], ?_, ?_, ?_⟩
  · have hflatten : (turns.map fun turn => [turn]).flatten = turns := by
      induction turns with
      | nil => rfl
      | cons turn turns ih => simpa using ih ((List.suffix_cons turn turns).trans h)
    rw [hflatten]
    exact h
  · intro group hgroup
    rcases List.mem_map.1 hgroup with ⟨turn, -, rfl⟩
    exact ⟨by simp, by simp [merged]⟩
  · rw [List.map_map]
    exact (List.map_id turns).symm

-- One more thing said by the same side goes behind the others.
theorem merged_concat (group : List ChatTurn) (turn : ChatTurn) (hgroup : group ≠ []) :
    merged (group ++ [turn]) =
      ⟨(merged group).user, (merged group).content ++ "\n" ++ turn.content⟩ := by
  cases group with
  | nil => exact absurd rfl hgroup
  | cons first rest => simp [merged]

theorem oneSided_singleton (turn : ChatTurn) : OneSided [turn] :=
  ⟨by simp, by simp [merged]⟩

theorem oneSided_concat {group : List ChatTurn} {turn : ChatTurn} (h : OneSided group)
    (hside : (merged group).user = turn.user) : OneSided (group ++ [turn]) := by
  refine ⟨by simp, fun t ht => ?_⟩
  rw [merged_concat group turn h.1]
  rcases List.mem_append.1 ht with ht | ht
  · exact h.2 t ht
  · rw [List.mem_singleton.1 ht]
    exact hside.symm

/-- The last turn of a list that tells the end of a transcript ends with the last thing said. -/
theorem replays_last {said turns : List ChatTurn} (turn : ChatTurn) (h : Replays said turns)
    (hne : turns ≠ []) (hlast : said.getLast? = some turn) :
    ∃ before, turns.getLast? = some ⟨turn.user, before ++ turn.content⟩ := by
  rcases h with ⟨groups, hsuffix, hsided, rfl⟩
  rcases List.eq_nil_or_concat groups with rfl | ⟨init, group, rfl⟩
  · exact absurd rfl hne
  have hgroup := hsided group (by simp)
  rcases List.eq_nil_or_concat group with rfl | ⟨front, last, rfl⟩
  · exact absurd rfl hgroup.1
  -- The last line of the last group is the last thing said.
  have hsame : last = turn := by
    rcases hsuffix with ⟨before, hsaid⟩
    rw [← hsaid, List.concat_eq_append, List.concat_eq_append, List.flatten_append,
      List.flatten_singleton, ← List.append_assoc, ← List.append_assoc,
      List.getLast?_concat] at hlast
    exact Option.some.inj hlast
  subst hsame
  rw [List.concat_eq_append, List.map_append, List.map_singleton, List.getLast?_concat,
    List.concat_eq_append]
  rw [List.concat_eq_append] at hgroup
  have huser : last.user = (merged (front ++ [last])).user := hgroup.2 last (by simp)
  by_cases hfront : front = []
  · subst hfront
    exact ⟨"", by simp [merged]⟩
  · refine ⟨(merged front).content ++ "\n", ?_⟩
    rw [huser, merged_concat front last hfront]

/-- A request tells the end of what was said, with the whole question, and behind it the
    calls of tools and their results. The provider takes it. -/
structure Proper (said : List ChatTurn) (question : String) (turns : List ChatTurn) : Prop where
  wellFormed : WellFormed turns
  recent : ∃ recent : List ChatTurn, ∃ calls : List (String × String × String),
    turns = recent ++ calls.flatMap (fun call => toolTurns call.1 call.2.1 call.2.2) ∧
      Replays said recent ∧
      (isBlank question = false →
        ∃ before, recent.getLast? = some ⟨true, before ++ question⟩)

theorem Proper.tool {said turns : List ChatTurn} {question : String}
    (h : Proper said question turns) (raw name result : String) :
    Proper said question (turns ++ toolTurns raw name result) := by
  rcases h with ⟨hwf, recent, calls, rfl, hreplays, hasked⟩
  refine ⟨wellFormed_toolTurns raw name result _ hwf, recent, calls ++ [(raw, name, result)],
    ?_, hreplays, hasked⟩
  simp

/-- The last entries of a list, as many as are asked for. -/
def newest {α : Type*} (n : ℕ) (l : List α) : List α := l.drop (l.length - n)

theorem newest_suffix {α : Type*} (n : ℕ) (l : List α) : newest n l <:+ l :=
  List.drop_suffix _ l

-- The last entry is among them.
theorem newest_concat {α : Type*} (n : ℕ) (l : List α) (a : α) :
    newest (n + 1) (l ++ [a]) = newest n l ++ [a] := by
  have hlength : (l ++ [a]).length - (n + 1) = l.length - n := by
    rw [List.length_append, List.length_singleton]
    omega
  rw [newest, newest, hlength, List.drop_append_of_le_length (Nat.sub_le _ _)]

-- The newest of the newest are the newest.
theorem newest_newest {α : Type*} {m n : ℕ} (h : m ≤ n) (l : List α) :
    newest m (newest n l) = newest m l := by
  have hsame : l.length - n + (l.length - (l.length - n) - m) = l.length - m := by omega
  rw [newest, newest, newest, List.drop_drop, List.length_drop, hsame]

theorem newest_eq {α : Type*} (n : ℕ) (l : List α) : newest n l = l.drop (l.length - n) := rfl

attribute [irreducible] newest

/-- How many lines of a transcript are replayed. -/
def contextMessages : ℕ := 20

/-- How many requests one answer may take. -/
def maxToolRounds : ℕ := 8

/-- One message of a room, as far as the agent needs it. -/
structure RoomLine where
  fromAgent : Bool
  text : String
deriving DecidableEq, Repr

/-- What a line says, if it says something. -/
def sayable (lines : List RoomLine) : List ChatTurn :=
  (lines.filter fun line => !isBlank line.text).map
    fun line => ⟨!line.fromAgent, trimmed line.text⟩

/-- A turn of the same side joins the last turn. The first turn is the user's. -/
def pushTurn (out : List ChatTurn) (turn : ChatTurn) : List ChatTurn :=
  match out.getLast? with
  | some last =>
      if last.user = turn.user then
        out.dropLast ++ [{ last with content := last.content ++ "\n" ++ turn.content }]
      else out ++ [turn]
  | none => if turn.user then out ++ [turn] else out

def pushLine (out : List ChatTurn) (line : RoomLine) : List ChatTurn :=
  if isBlank line.text then out else pushTurn out ⟨!line.fromAgent, trimmed line.text⟩

/-- The conversation the providers accept, made from the tail of a room. -/
def turns (lines : List RoomLine) : List ChatTurn :=
  (newest contextMessages lines).foldl pushLine []

/-- The list so far stands for groups of what was said so far, but for what the agent said
    first. It begins with the user and alternates. -/
def Gathers (said out : List ChatTurn) : Prop :=
  Replays said out ∧ (∀ turn, out.head? = some turn → turn.user = true) ∧
    out.IsChain fun t u => t.user ≠ u.user

theorem gathers_nil : Gathers [] [] :=
  ⟨replays_suffix (List.suffix_refl []), by simp, List.isChain_nil⟩

-- Only the sides decide whether a list alternates.
theorem chain_iff_sides (turns : List ChatTurn) :
    turns.IsChain (fun t u => t.user ≠ u.user) ↔
      (turns.map ChatTurn.user).IsChain fun a b => a ≠ b := (List.isChain_map _).symm

/-- One more thing said: it joins the last group, opens one or is shed. -/
theorem gathers_pushTurn {said out : List ChatTurn} (turn : ChatTurn) (h : Gathers said out) :
    Gathers (said ++ [turn]) (pushTurn out turn) := by
  rcases h with ⟨⟨groups, hsuffix, hsided, hout⟩, hfirst, hchain⟩
  rcases List.eq_nil_or_concat groups with rfl | ⟨init, group, rfl⟩
  · -- Nothing is kept so far.
    subst hout
    by_cases huser : turn.user = true
    · simp only [pushTurn, List.map_nil, List.getLast?_nil, huser, if_true, List.nil_append]
      refine ⟨replays_suffix (List.suffix_append said [turn]), ?_, List.isChain_singleton turn⟩
      simpa using huser
    · simp only [pushTurn, List.map_nil, List.getLast?_nil, huser]
      exact ⟨replays_suffix List.nil_suffix, by simp, List.isChain_nil⟩
  · rw [List.concat_eq_append] at hsuffix hsided hout
    rw [List.map_append, List.map_singleton] at hout
    have hgroup := hsided group (by simp)
    have hflatten : (init ++ [group ++ [turn]]).flatten = (init ++ [group]).flatten ++ [turn] := by
      simp
    rcases hsuffix with ⟨before, hsaid⟩
    by_cases hside : (merged group).user = turn.user
    · have hpush : pushTurn out turn = init.map merged ++ [merged (group ++ [turn])] := by
        rw [pushTurn, hout, List.getLast?_concat]
        simp only [hside, if_true, List.dropLast_concat]
        rw [merged_concat group turn hgroup.1, hside]
      rw [hpush]
      refine ⟨⟨init ++ [group ++ [turn]], ?_, ?_, by simp⟩, ?_, ?_⟩
      · exact ⟨before, by rw [hflatten, ← List.append_assoc, hsaid]⟩
      · intro g hg
        rcases List.mem_append.1 hg with hg | hg
        · exact hsided g (List.mem_append_left _ hg)
        · rw [List.mem_singleton.1 hg]
          exact oneSided_concat hgroup hside
      · -- The first turn keeps its side.
        intro t ht
        cases init with
        | nil =>
            have hhead := hfirst (merged group) (by rw [hout]; rfl)
            simp only [List.map_nil, List.nil_append, List.head?_cons, Option.some.injEq] at ht
            rw [← ht, merged_concat group turn hgroup.1]
            exact hhead
        | cons g rest => exact hfirst t (by rw [hout]; exact ht)
      · rw [chain_iff_sides, hout] at hchain
        rw [chain_iff_sides]
        simpa [merged_concat group turn hgroup.1] using hchain
    · have hpush : pushTurn out turn = out ++ [turn] := by
        rw [pushTurn, hout, List.getLast?_concat]
        simp only [hside, if_false]
      rw [hpush]
      refine ⟨⟨init ++ [group] ++ [[turn]], ?_, ?_, ?_⟩, ?_, ?_⟩
      · refine ⟨before, ?_⟩
        rw [List.flatten_append, ← List.append_assoc, hsaid]
        simp
      · intro g hg
        rcases List.mem_append.1 hg with hg | hg
        · exact hsided g hg
        · rw [List.mem_singleton.1 hg]
          exact oneSided_singleton turn
      · rw [List.map_append, List.map_append, hout]
        simp [merged]
      · intro t ht
        refine hfirst t ?_
        rw [hout] at ht ⊢
        cases init <;> simpa using ht
      · rw [List.isChain_append]
        refine ⟨hchain, List.isChain_singleton turn, ?_⟩
        intro last hlast first hfirst'
        rw [hout, List.getLast?_concat] at hlast
        rw [List.head?_cons] at hfirst'
        rw [← Option.some.inj hlast, ← Option.some.inj hfirst']
        exact hside

-- What an induction over the lines carries along.
theorem gathers_foldl (lines : List RoomLine) : ∀ said out, Gathers said out →
    Gathers (said ++ sayable lines) (lines.foldl pushLine out) := by
  induction lines with
  | nil =>
      intro said out h
      simpa [sayable] using h
  | cons line lines ih =>
      intro said out h
      rw [List.foldl_cons, pushLine]
      by_cases hblank : isBlank line.text = true
      · rw [if_pos hblank]
        simpa [sayable, hblank] using ih said out h
      · rw [if_neg hblank]
        have hnext := ih _ _ (gathers_pushTurn ⟨!line.fromAgent, trimmed line.text⟩ h)
        simpa [sayable, hblank] using hnext

theorem replays_mono {said more turns : List ChatTurn} (h : Replays said turns)
    (hmore : said <:+ more) : Replays more turns := by
  rcases h with ⟨groups, hsuffix, hsided, hout⟩
  exact ⟨groups, hsuffix.trans hmore, hsided, hout⟩

theorem sayable_suffix {window lines : List RoomLine} (h : window <:+ lines) :
    sayable window <:+ sayable lines := by
  rcases h with ⟨before, rfl⟩
  exact ⟨sayable before, by simp [sayable]⟩

/-- What the agent makes of a room begins with the user, alternates, and tells the end of
    what was said there. -/
theorem turns_spec (lines : List RoomLine) :
    Replays (sayable lines) (turns lines) ∧
      (∀ turn, (turns lines).head? = some turn → turn.user = true) ∧
      (turns lines).IsChain fun t u => t.user ≠ u.user := by
  rcases gathers_foldl (newest contextMessages lines) [] [] gathers_nil with ⟨hreplays, hrest⟩
  exact ⟨replays_mono hreplays (sayable_suffix (newest_suffix _ lines)), hrest⟩

/-- What the model answers, or that it does not. -/
inductive Answer
  | failed (error : String)
  | text (reply : String)
  | tool (raw name result : String)
deriving DecidableEq, Repr

/-- The longest result a tool may give, in characters. -/
def maxResult : ℕ := 6000

def clamp (text : String) (max : ℕ) : String :=
  if (trim text.toList).length ≤ max then trimmed text
  else String.ofList ((trim text.toList).take (max - 1) ++ ['…'])

/-- The loop of an answer: a request, and after the call of a tool another one. -/
def runTurn : ℕ → List ChatTurn → List Answer → List (List ChatTurn)
  | 0, _, _ => []
  | rounds + 1, turns, .tool raw name result :: answers =>
      turns :: runTurn rounds (turns ++ toolTurns raw name (clamp result maxResult)) answers
  | _ + 1, turns, _ => [turns]

/-- The room with the question just sent, which it may end with already. -/
def asked (lines : List RoomLine) (question : String) : List RoomLine :=
  match lines.getLast? with
  | some last =>
      if last.fromAgent || last.text ≠ question then lines ++ [⟨false, question⟩] else lines
  | none => lines ++ [⟨false, question⟩]

/-- The requests sent to answer a question, given what the provider answers to each. -/
def requests (provider : Provider) (system : String) (lines : List RoomLine)
    (question : String) (answers : List Answer) : List Prepared :=
  match (turns (asked lines question)).getLast? with
  | some last =>
      if last.user then
        (runTurn maxToolRounds (turns (asked lines question)) answers).map
          (chatRequest provider system)
      else []
  | none => []

-- The room ends with the question, asked by the user.
theorem asked_last (lines : List RoomLine) (question : String) :
    (asked lines question).getLast? = some ⟨false, question⟩ := by
  unfold asked
  cases hlast : lines.getLast? with
  | none => simp
  | some last =>
      rcases last with ⟨fromAgent, text⟩
      by_cases hsame : (fromAgent || decide (text ≠ question)) = true
      · simp only [hsame, if_true, List.getLast?_concat]
      · simp only [hsame]
        rw [Bool.or_eq_true, not_or, decide_eq_true_eq, not_not] at hsame
        rw [if_neg (by simp), hlast, hsame.2, Bool.eq_false_iff.2 hsame.1]

theorem runTurn_proper {said : List ChatTurn} {question : String} : ∀ (rounds : ℕ)
    (turns : List ChatTurn) (answers : List Answer), Proper said question turns →
    ∀ sent ∈ runTurn rounds turns answers, Proper said question sent := by
  intro rounds
  induction rounds with
  | zero =>
      intro turns answers _ sent hsent
      cases hsent
  | succ rounds ih =>
      intro turns answers h sent hsent
      have hone : ∀ sent ∈ [turns], Proper said question sent := by
        intro sent hsent
        rw [List.mem_singleton.1 hsent]
        exact h
      cases answers with
      | nil => exact hone sent hsent
      | cons answer answers =>
          cases answer with
          | failed error => exact hone sent hsent
          | text reply => exact hone sent hsent
          | tool raw name result =>
              rcases List.mem_cons.1 hsent with rfl | hsent
              · exact h
              · exact ih _ _ (h.tool raw name _) sent hsent

/-- Every request of Jarvis is a conversation the provider takes, with the end of the room
    and the whole question in it. -/
theorem requests_proper (provider : Provider) (system : String) (lines : List RoomLine)
    (question : String) (answers : List Answer) :
    ∀ body ∈ requests provider system lines question answers,
      Proper (sayable (asked lines question)) (trimmed question) (carried body) := by
  intro body hbody
  unfold requests at hbody
  cases hlast : (turns (asked lines question)).getLast? with
  | none =>
      rw [hlast] at hbody
      cases hbody
  | some last =>
      simp only [hlast] at hbody
      by_cases huser : last.user = true
      · rw [if_pos huser] at hbody
        rcases List.mem_map.1 hbody with ⟨sent, hsent, rfl⟩
        rw [carried_chatRequest]
        rcases turns_spec (asked lines question) with ⟨hreplays, hfirst, hchain⟩
        have hne : turns (asked lines question) ≠ [] := by
          intro hnil
          rw [hnil] at hlast
          cases hlast
        refine runTurn_proper maxToolRounds _ answers ⟨⟨?_, hchain, ?_⟩, ?_⟩ sent hsent
        · cases hturns : turns (asked lines question) with
          | nil => exact absurd hturns hne
          | cons first rest =>
              have hhead := hfirst first (by rw [hturns]; rfl)
              simpa using hhead
        · rw [hlast]
          exact congrArg some huser
        · refine ⟨_, [], by simp, hreplays, fun hblank => ?_⟩
          refine replays_last ⟨true, trimmed question⟩ hreplays hne ?_
          -- The question is the last line, and it is not a blank one.
          rcases List.getLast?_eq_some_iff.1 (asked_last lines question) with ⟨before, hbefore⟩
          rw [isBlank_trimmed] at hblank
          rw [hbefore]
          simp [sayable, hblank]
      · rw [if_neg huser] at hbody
        cases hbody

end Chat

end PocketSkynet
