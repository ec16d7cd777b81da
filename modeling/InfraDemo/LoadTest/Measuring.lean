import InfraDemo.LoadTest.Conversation
import InfraDemo.LoadTest.Streaming

/-!
# Measuring — `measure_chat_session.py` beside a session of the load generators

One session, without a thread, a pause or a way to stop it.  On the same answers it is a session of the
load generators (`measures_session`): the same requests but for `max_tokens`, the same turns, times and
counts.  But it also divides by the time a request took, and raises where the clock did not move.
-/

namespace InfraDemo.LoadTest.Measuring

open Python

/-- `TURNS` -/
def turns : List String :=
  ["Explain what a KV cache is in a large language model inference system.",
    "How does the size of the KV cache affect how many concurrent users you can serve?",
    "What is prefix caching and how does it help with multi-turn conversations?",
    "What happens when the KV cache is full?",
    "How would you monitor KV cache utilization in production?"]

/-- The body of a request. -/
structure Payload where
  model : String
  messages : List Message
  stream : Bool
  maxTokens : ℕ

/-- `payload`; `max_tokens` is 200 in this script and 600 in `load_test_multi_session.py`. -/
def payload (maxTokens : ℕ) (model : String) (messages : List Message) : Payload where
  model
  messages
  stream := true
  maxTokens

/-- What `run_inference` returns. -/
structure Inference where
  ttftMs : ℚ
  tpotMs : ℚ
  throughputTps : ℚ
  totalTokens : ℕ
  responseFull : String

/-- A result of `run_chat_session`. -/
structure Result where
  ttftMs : ℚ
  tpotMs : ℚ
  throughputTps : ℚ
  totalTokens : ℕ
  turn : ℕ
  promptMessages : ℕ
  userText : String
  responsePreview : String

section Program

variable (loads : List Char → Option Json) (clock : ℕ → ℚ)

/-- What follows the loop, with the division by zero. -/
def finish (tRequestSent : ℚ) (s : Stream) : Option Inference := do
  let tDone := orTime s.tDone (clock s.reads)
  let tFirstToken := orTime s.tFirstToken tDone
  let totalTokens := s.tokenTimes.length
  let totalGeneration := if 1 < totalTokens then tDone - tFirstToken else 0
  let tpot := if 1 < totalTokens then totalGeneration / (totalTokens - 1) * 1000 else 0
  if tDone - tRequestSent = 0 then none
  else do
    let responseFull ← Json.join s.fullResponse
    some
      { ttftMs := roundTo ((tFirstToken - tRequestSent) * 1000) 1
        tpotMs := roundTo tpot 1
        throughputTps := roundTo (totalTokens / (tDone - tRequestSent)) 1
        totalTokens
        responseFull := String.ofList responseFull }

/-- `run_inference`, whose loop is the one of the load generators. -/
def runInference (lines : List (List Char)) : Option Inference := do
  let s ← Stream.sent.loop loads clock lines
  finish clock (clock 0) s

/-- The entries of turn `i`; `messages` ends in the reply. -/
def turnResult (i : ℕ) (messages : List Message) (userText : String) (result : Inference) :
    Result where
  ttftMs := result.ttftMs
  tpotMs := result.tpotMs
  throughputTps := result.throughputTps
  totalTokens := result.totalTokens
  turn := i + 1
  promptMessages := messages.length - 1
  userText
  responsePreview := String.ofList (result.responseFull.toList.take 120)

/-- The loop over the turns, with the requests it has sent; `answer i x` is what `run_inference` returns
for request `x` of turn `i`. -/
def runTurns (answer : ℕ → Payload → Option Inference) (model : String) (i : ℕ)
    (messages : List Message) (sent : List Payload) (results : List Result) :
    List String → List Payload × Option (List Result)
  | [] => (sent, some results)
  | userText :: rest =>
    let messages := messages ++ [{ role := .user, content := userText }]
    let request := payload 200 model messages
    match answer i request with
    | none => (sent ++ [request], none)
    | some result =>
      let messages := messages ++ [{ role := .assistant, content := result.responseFull }]
      runTurns answer model (i + 1) messages (sent ++ [request])
        (results ++ [turnResult i messages userText result]) rest

def runChatSession (answer : ℕ → Payload → Option Inference) (model : String) (maxTurns : ℤ) :
    List Payload × Option (List Result) :=
  runTurns answer model 0 [{ role := .system, content := "You are a helpful assistant." }] [] []
    (sliceTo turns maxTurns)

end Program

/-! ### One request -/

/-- What the load generators get of it. -/
def Inference.plain (r : Inference) : LoadTest.Inference where
  ttftMs := r.ttftMs
  tpotMs := r.tpotMs
  totalTokens := r.totalTokens
  responseFull := r.responseFull

/-- At the end the clock shows the time at which the request was sent. -/
def Instant (loads : List Char → Option Json) (clock : ℕ → ℚ) (lines : List (List Char)) : Prop :=
  ∃ s, Stream.sent.loop loads clock lines = some s ∧ orTime s.tDone (clock s.reads) - clock 0 = 0

variable {loads : List Char → Option Json} {clock : ℕ → ℚ} {lines : List (List Char)}

variable (loads clock lines) in
/-- **One request, measured twice**: the same numbers, unless no time has passed. -/
theorem runInference_eq :
    ((runInference loads clock lines).map Inference.plain = LoadTest.runInference loads clock lines ∧
      ¬ Instant loads clock lines) ∨
    (runInference loads clock lines = none ∧ Instant loads clock lines) := by
  unfold runInference LoadTest.runInference LoadTest.measure Instant
  simp only [Option.bind_eq_bind]
  cases hloop : Stream.sent.loop loads clock lines with
  | none => exact .inl ⟨rfl, fun ⟨s, hs, _⟩ => by cases hs⟩
  | some s =>
    simp only [Option.bind_some]
    by_cases hzero : orTime s.tDone (clock s.reads) - clock 0 = 0
    · refine .inr ⟨?_, s, rfl, hzero⟩
      simp only [finish, if_pos hzero]
    · refine .inl ⟨?_, fun ⟨s', hs', hzero'⟩ => hzero (Option.some_inj.mp hs' ▸ hzero')⟩
      simp only [finish, if_neg hzero, Stream.finish, Option.bind_eq_bind]
      cases Json.join s.fullResponse with
      | none => rfl
      | some response => rfl

/-! ### One session -/

/-- Turn, number of messages, times and count of a result. -/
def Result.view (r : Result) : ℕ × ℕ × ℚ × ℚ × ℕ :=
  (r.turn, r.promptMessages, r.ttftMs, r.tpotMs, r.totalTokens)

/-- The same of a result of the load generators. -/
def rowView (r : Row) : ℕ × ℕ × ℚ × ℚ × ℕ :=
  (r.turn, r.promptMessages, r.ttftMs, r.tpotMs, r.totalTokens)

/-- What a reply in turn `k` makes of them. -/
def replyView (k : ℕ) (reply : LoadTest.Inference) : ℕ × ℕ × ℚ × ℚ × ℕ :=
  (k + 1, 2 * (k + 1), reply.ttftMs, reply.tpotMs, reply.totalTokens)

/-- The texts of up to five turns are the same. -/
theorem texts_eq {a : Args} (h0 : 0 ≤ a.turns) (h5 : a.turns ≤ 5) :
    sliceTo turns a.turns = a.texts := by
  have hturns : turns = LoadTest.turns.take 5 := rfl
  unfold Args.texts sliceTo
  rw [if_pos h0, if_pos h0, hturns, List.take_take, min_eq_left (by omega)]

section Session

variable {a : Args} {t : Transcript} {sessionId : ℕ}

/-- The results of a session are made of its replies. -/
theorem rows_eq (h : t.Reachable a sessionId) :
    t.session.results.map rowView = t.replies.mapIdx replyView := by
  induction h with
  | init =>
    have hnone : (ChatSession.start a sessionId).results = [] := ChatSession.next_results _
    show (ChatSession.start a sessionId).results.map rowView = _
    rw [hnone]
    rfl
  | @step t t' reached hstep ih =>
    have hsound := Transcript.reachable_sound reached
    have hsound' := Transcript.sound_step hstep hsound
    cases hstep with
    | reply calling reply =>
      have hcount := hsound'.counts t.session.results.length _ List.getElem?_concat_length
      show (t.session.results ++ [_]).map rowView = (t.replies ++ [reply]).mapIdx replyView
      rw [List.map_append, List.mapIdx_concat, ih, ← hsound.results]
      exact congrArg (fun n => _ ++ [(_, n, _)]) hcount
    | raise | stop => exact ih
    | check checking =>
      have hresults : (t.session.check a t.stop).results = t.session.results := by
        unfold ChatSession.check
        split_ifs
        · rfl
        · rfl
        · exact ChatSession.next_results _
      show (t.session.check a t.stop).results.map rowView = _
      rw [hresults]
      exact ih
    | wake pausing =>
      show (t.session.next a).results.map rowView = _
      rw [ChatSession.next_results]
      exact ih

variable (loads) (clock : ℕ → ℕ → ℚ) (serve : ℕ → Payload → List (List Char)) (model : String)

/-- Request `k` of the session was answered with the lines `serve k`, at the times `clock k`, and the
lower `max_tokens` would not change the answer. -/
structure Answered (t : Transcript) : Prop where
  same : ∀ k msgs, t.requests[k]? = some msgs →
    serve k (payload 200 model msgs) = serve k (payload 600 model msgs)
  replies : ∀ k reply, t.replies[k]? = some reply → ∃ msgs, t.requests[k]? = some msgs ∧
    LoadTest.runInference loads (clock k) (serve k (payload 600 model msgs)) = some reply
  raised : t.session.phase = .raised → ∃ msgs, t.requests[t.replies.length]? = some msgs ∧
    LoadTest.runInference loads (clock t.replies.length)
      (serve t.replies.length (payload 600 model msgs)) = none

/-- No time passes during request `k`. -/
def InstantAt (t : Transcript) (k : ℕ) : Prop :=
  ∃ msgs, t.requests[k]? = some msgs ∧ Instant loads (clock k) (serve k (payload 600 model msgs))

/-- The measuring script with the same answers. -/
def measured (k : ℕ) (x : Payload) : Option Inference := runInference loads (clock k) (serve k x)

variable {loads clock serve model}

/-- The measuring script gets the same reply. -/
theorem measured_of_reply (hans : Answered loads clock serve model t) {k : ℕ} {msgs : List Message}
    {reply : LoadTest.Inference} (hmsgs : t.requests[k]? = some msgs)
    (hreply : LoadTest.runInference loads (clock k) (serve k (payload 600 model msgs)) = some reply)
    (htime : ¬ InstantAt loads clock serve model t k) :
    ∃ r, measured loads clock serve k (payload 200 model msgs) = some r ∧ r.plain = reply := by
  unfold measured
  rw [hans.same k msgs hmsgs]
  rcases runInference_eq loads (clock k) (serve k (payload 600 model msgs)) with
    ⟨heq, -⟩ | ⟨-, hinstant⟩
  · rw [hreply] at heq
    exact Option.map_eq_some_iff.mp heq
  · exact absurd ⟨msgs, hmsgs, hinstant⟩ htime

/-- It raises if no time passes or the session raises. -/
theorem measured_eq_none (hans : Answered loads clock serve model t) {k : ℕ} {msgs : List Message}
    (hmsgs : t.requests[k]? = some msgs)
    (hraise : InstantAt loads clock serve model t k ∨
      LoadTest.runInference loads (clock k) (serve k (payload 600 model msgs)) = none) :
    measured loads clock serve k (payload 200 model msgs) = none := by
  unfold measured
  rw [hans.same k msgs hmsgs]
  rcases runInference_eq loads (clock k) (serve k (payload 600 model msgs)) with
    ⟨heq, htime⟩ | ⟨hnone, -⟩
  · rcases hraise with ⟨msgs', hmsgs', hinstant⟩ | hnone
    · rw [hmsgs] at hmsgs'
      exact absurd (Option.some_inj.mp hmsgs' ▸ hinstant) htime
    · rw [hnone] at heq
      exact Option.map_eq_none_iff.mp heq
  · exact hnone

/-- **The first turns**: after `n` replies the loop has sent the requests of the session and has its
messages and its results. -/
theorem runTurns_replies (h : t.Sound a) (hans : Answered loads clock serve model t) {n : ℕ}
    (hn : n ≤ t.replies.length) (htime : ∀ k < n, ¬ InstantAt loads clock serve model t k) :
    ∃ results : List Result, results.map Result.view = (t.replies.take n).mapIdx replyView ∧
      runTurns (measured loads clock serve) model 0 (answered a.texts []) [] [] a.texts =
        runTurns (measured loads clock serve) model n (answered a.texts (t.replies.take n))
          ((t.requests.take n).map (payload 200 model)) results (a.texts.drop n) := by
  induction n with
  | zero => exact ⟨[], rfl, rfl⟩
  | succ n ih =>
    have hbefore : ∀ k < n, ¬ InstantAt loads clock serve model t k := fun k hk =>
      htime k (hk.trans n.lt_succ_self)
    obtain ⟨results, hview, hrun⟩ := ih (Nat.le_of_succ_le hn) hbefore
    obtain ⟨msgs, hmsgs, hreply⟩ := hans.replies n _ (List.getElem?_eq_getElem hn)
    obtain ⟨text, htext, hmsgs'⟩ := h.requests n msgs hmsgs
    obtain ⟨r, hr, hplain⟩ := measured_of_reply hans hmsgs hreply (htime n n.lt_succ_self)
    have hlen : (t.replies.take n).length = n := List.length_take_of_le (Nat.le_of_succ_le hn)
    have htake : t.replies.take (n + 1) = t.replies.take n ++ [t.replies[n]] :=
      (List.take_concat_get' t.replies n hn).symm
    have hdrop : a.texts.drop n = text :: a.texts.drop (n + 1) := by
      obtain ⟨hlt, rfl⟩ := List.getElem?_eq_some_iff.mp htext
      exact List.drop_eq_getElem_cons hlt
    have hmessages : answered a.texts (t.replies.take (n + 1)) =
        msgs ++ [{ role := .assistant, content := r.responseFull }] := by
      rw [htake, Transcript.answered_concat (by rw [hlen]; exact htext), ← hplain, hmsgs']
      simp only [List.append_assoc, List.cons_append, List.nil_append]
      rfl
    have hcount : (answered a.texts (t.replies.take (n + 1))).length - 1 = 2 * (n + 1) := by
      have hlt := (List.getElem?_eq_some_iff.mp htext).1
      rw [Transcript.length_answered (by rw [List.length_take_of_le hn]; exact hlt),
        List.length_take_of_le hn]
      rfl
    refine ⟨results ++ [turnResult n (answered a.texts (t.replies.take (n + 1))) text r], ?_,
      hrun.trans ?_⟩
    · rw [List.map_append, hview, htake, List.mapIdx_concat, hlen, ← htake]
      refine congrArg _ (congrArg (fun v => [v]) ?_)
      show (n + 1, _ - 1, r.ttftMs, r.tpotMs, r.totalTokens) = replyView n t.replies[n]
      rw [hcount, ← hplain]
      rfl
    · have hrequest : answered a.texts (t.replies.take n) ++ [{ role := .user, content := text }] =
          msgs := hmsgs'.symm
      rw [hdrop, runTurns, hmessages, List.take_add_one, hmsgs, List.map_append]
      simp only [hrequest, hr]
      rfl

/-- The turn in which the measuring script raises. -/
theorem runTurns_raises (h : t.Sound a) (hans : Answered loads clock serve model t) {k : ℕ}
    {msgs : List Message} (hk : k ≤ t.replies.length)
    (htime : ∀ l < k, ¬ InstantAt loads clock serve model t l) (hmsgs : t.requests[k]? = some msgs)
    (hnone : measured loads clock serve k (payload 200 model msgs) = none) :
    runTurns (measured loads clock serve) model 0 (answered a.texts []) [] [] a.texts =
      ((t.requests.take (k + 1)).map (payload 200 model), none) := by
  obtain ⟨results, -, hrun⟩ := runTurns_replies h hans hk htime
  obtain ⟨text, htext, hmsgs'⟩ := h.requests k msgs hmsgs
  have hdrop : a.texts.drop k = text :: a.texts.drop (k + 1) := by
    obtain ⟨hlt, rfl⟩ := List.getElem?_eq_some_iff.mp htext
    exact List.drop_eq_getElem_cons hlt
  have hrequest : answered a.texts (t.replies.take k) ++ [{ role := .user, content := text }] =
      msgs := hmsgs'.symm
  rw [hrun, hdrop, runTurns, List.take_add_one, hmsgs, List.map_append]
  simp only [hrequest, hnone]
  rfl

/-- **The measuring script makes a session of the load generators.**  On the same answers, up to five
turns that are not stopped send the same requests, with 200 instead of 600 as `max_tokens`, and have the
same results, or both raise.  Only where no time passes during a request does it raise alone, after the
first requests. -/
theorem measures_session (h0 : 0 ≤ a.turns) (h5 : a.turns ≤ 5) (h : t.Reachable a sessionId)
    (hstop : t.stop = false) (hend : t.session.Ended)
    (hans : Answered loads clock serve model t) :
    ((∀ k, ¬ InstantAt loads clock serve model t k) →
      (runChatSession (measured loads clock serve) model a.turns).1 =
        t.requests.map (payload 200 model) ∧
      (runChatSession (measured loads clock serve) model a.turns).2.map (List.map Result.view) =
        if t.session.phase = .returned then some (t.session.results.map rowView) else none) ∧
    ∀ k, InstantAt loads clock serve model t k →
      (∃ n ≤ k + 1, (runChatSession (measured loads clock serve) model a.turns).1 =
        (t.requests.take n).map (payload 200 model)) ∧
      (runChatSession (measured loads clock serve) model a.turns).2 = none := by
  have hsound := Transcript.reachable_sound h
  have hstart : runChatSession (measured loads clock serve) model a.turns =
      runTurns (measured loads clock serve) model 0 (answered a.texts []) [] [] a.texts := by
    unfold runChatSession
    rw [texts_eq h0 h5, answered, List.zip_nil_right]
    rfl
  rw [hstart]
  constructor
  · intro htime
    rcases hend with hreturned | hraised
    · obtain ⟨results, hview, hrun⟩ := runTurns_replies hsound hans le_rfl fun k _ => htime k
      have hphase : t.session.phase ≠ .calling ∧ t.session.phase ≠ .raised := by
        rw [hreturned]
        exact ⟨Phase.noConfusion, Phase.noConfusion⟩
      have hall : t.replies.length = a.texts.length := by
        rw [← hsound.results]
        exact (Transcript.reachable_session h).whole hstop hreturned
      have hrequests : t.requests.take t.replies.length = t.requests := by
        rw [← (hsound.idle hphase.1 hphase.2).2, List.take_length]
      rw [List.take_length] at hview
      rw [if_pos hreturned, hrun, hrequests, hall, List.drop_length, runTurns]
      exact ⟨rfl, by rw [Option.map_some, hview, rows_eq h]⟩
    · obtain ⟨msgs, hmsgs, hnone⟩ := hans.raised hraised
      have hphase : t.session.phase ≠ .returned := by
        rw [hraised]
        exact Phase.noConfusion
      have hrequests : t.requests.take (t.replies.length + 1) = t.requests :=
        List.take_of_length_le hsound.le.2
      rw [runTurns_raises hsound hans le_rfl (fun k _ => htime k) hmsgs
        (measured_eq_none hans hmsgs (.inr hnone)), hrequests, if_neg hphase]
      exact ⟨rfl, rfl⟩
  · intro k hinstant
    classical
    -- the first request during which no time passes
    have hexists : ∃ k, InstantAt loads clock serve model t k := ⟨k, hinstant⟩
    have hbefore : ∀ l < Nat.find hexists, ¬ InstantAt loads clock serve model t l :=
      fun l hl => Nat.find_min hexists hl
    have hle : Nat.find hexists ≤ k := Nat.find_min' hexists hinstant
    obtain ⟨msgs, hmsgs, hfirst⟩ := Nat.find_spec hexists
    have hlt : Nat.find hexists < t.requests.length := (List.getElem?_eq_some_iff.mp hmsgs).1
    have hreplies : Nat.find hexists ≤ t.replies.length :=
      Nat.lt_succ_iff.mp (hlt.trans_le hsound.le.2)
    rw [runTurns_raises hsound hans hreplies hbefore hmsgs
      (measured_eq_none hans hmsgs (.inl ⟨msgs, hmsgs, hfirst⟩))]
    exact ⟨⟨_, Nat.succ_le_succ hle, rfl⟩, rfl⟩

end Session

/-- One turn. -/
def oneTurn : Args where
  script := .multiSession
  turns := 1
  concurrency := 1
  thinkTime := 0
  continuous := false
  mixed := false

/-- Each request has two tokens, a tenth of a second apart. -/
theorem measures_session_oneTurn : ∃ t : Transcript, t.Reachable oneTurn 1 ∧
    t.session.phase = .returned ∧ t.requests.length = 1 ∧
    (runChatSession (measured loadsYes (fun _ i => 1 + i / 10) fun _ _ => yesLines) "qwen-7b" 1).1 =
      t.requests.map (payload 200 "qwen-7b") ∧
    (runChatSession (measured loadsYes (fun _ i => 1 + i / 10) fun _ _ => yesLines) "qwen-7b" 1).2.map
      (List.map Result.view) = some (t.session.results.map rowView) := by
  have hinit : Transcript.Reachable oneTurn 1 (Transcript.init oneTurn 1) := .init
  have hreply := hinit.step (.reply rfl ⟨100, 200, 2, "yesyes"⟩)
  have ht := hreply.step (.check rfl)
  have hanswer : LoadTest.runInference loadsYes (fun i => 1 + i / 10) yesLines =
      some ⟨100, 200, 2, "yesyes"⟩ := by decide +kernel
  have hsome : (runInference loadsYes (fun i => 1 + i / 10) yesLines).isSome := by decide +kernel
  refine ⟨_, ht, rfl, rfl, (measures_session (by decide) (by decide) ht rfl (.inl rfl)
    ⟨fun _ _ _ => rfl, ?_, ?_⟩).1 ?_⟩
  · intro k reply hk
    cases k with
    | zero =>
      obtain rfl := Option.some_inj.mp hk
      exact ⟨_, rfl, hanswer⟩
    | succ k => cases hk
  · intro hraised
    cases hraised
  · rintro k ⟨msgs, -, hinstant⟩
    rcases runInference_eq loadsYes (fun i => 1 + i / 10) yesLines with ⟨-, htime⟩ | ⟨hnone, -⟩
    · exact htime hinstant
    · rw [hnone] at hsome
      cases hsome

end InfraDemo.LoadTest.Measuring
