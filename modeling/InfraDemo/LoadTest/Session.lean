import Mathlib.Data.Rat.Defs
import Mathlib.Data.List.Nodup
import Mathlib.Tactic.Common

/-!
# Session — one conversation of the load generators

`run_chat_session` of `load_test_multi_session.py` and `load_test_chunked_prefill.py`, which differ in
the type entry of a result only.  A session is a thread of its own: it is a state with steps, so that
anything can happen between two of them.  `run_inference` is answered from outside, by an `Inference`
or an exception.
-/

namespace InfraDemo.LoadTest

/-- The two scripts. -/
inductive Script where
  | multiSession
  | chunkedPrefill
  deriving DecidableEq

/-- The arguments of the command line that the sessions and the collector read; `mixed` is
`--mode mixed`, which only one of the scripts has. -/
structure Args where
  script : Script
  turns : ℤ
  concurrency : ℕ
  thinkTime : ℚ
  continuous : Bool
  mixed : Bool

/-- `TURNS` -/
def turns : List String :=
  ["Explain what a KV cache is in a large language model inference system.",
    "How does the size of the KV cache affect how many concurrent users you can serve?",
    "What is prefix caching and how does it help with multi-turn conversations?",
    "What happens when the KV cache is full?",
    "How would you monitor KV cache utilization in production?",
    "What is the difference between TTFT and TPOT, and why does each matter for user experience?",
    "How does tensor parallelism affect KV cache size across multiple GPUs?",
    "What tradeoffs exist between batch size and KV cache memory usage?",
    "How does chunked prefill help with long-context requests?",
    "What is preemption in vLLM and when does it occur?",
    "How would you design a KV cache eviction policy for a production system?",
    "What is the relationship between model precision and KV cache memory footprint?",
    "How does continuous batching differ from static batching in terms of memory usage?",
    "What metrics would you alert on to detect KV cache pressure before it impacts users?",
    "How would paged attention help with memory fragmentation in a KV cache?"]

/-- `l[:n]` -/
def sliceTo {α : Type} (l : List α) (n : ℤ) : List α :=
  if 0 ≤ n then l.take n.toNat else l.take (l.length - n.natAbs)

/-- The user texts of a session. -/
def Args.texts (a : Args) : List String := sliceTo LoadTest.turns a.turns

/-! ### Results -/

inductive Role where
  | system
  | user
  | assistant
  deriving DecidableEq

structure Message where
  role : Role
  content : String
  deriving DecidableEq

/-- What `run_inference` returns. -/
structure Inference where
  ttftMs : ℚ
  tpotMs : ℚ
  totalTokens : ℕ
  responseFull : String
  deriving DecidableEq

/-- The session entry of a result: a number, or the text of an injection's number. -/
inductive Origin where
  | session (sessionId : ℕ)
  | inject (injectId : ℕ)
  deriving DecidableEq

inductive RowType where
  | chat
  | inject
  deriving DecidableEq

/-- A result, without its response. -/
structure Row where
  session : Origin
  turn : ℕ
  ttftMs : ℚ
  tpotMs : ℚ
  totalTokens : ℕ
  promptMessages : ℕ
  type : Option RowType
  deriving DecidableEq

/-- The type entry of a chat result. -/
def Script.chatType : Script → Option RowType
  | .multiSession => none
  | .chunkedPrefill => some .chat

/-- The result of one turn of a session. -/
def Row.isChat (r : Row) : Bool :=
  match r.session with
  | .session _ => true
  | .inject _ => false

/-- Session and turn. -/
def Row.key (r : Row) : Origin × ℕ := (r.session, r.turn)

/-! ### run_chat_session -/

/-- Where a session is: inside `run_inference`, right after it, in the pause before the next turn, or
done. -/
inductive Phase where
  | calling
  | checking
  | pausing
  | returned
  | raised
  deriving DecidableEq

structure ChatSession where
  sessionId : ℕ
  messages : List Message
  results : List Row
  phase : Phase

variable (a : Args)

/-- The head of the loop over the user texts. -/
def ChatSession.next (w : ChatSession) : ChatSession :=
  match a.texts[w.results.length]? with
  | some userText =>
    { w with messages := w.messages ++ [{ role := .user, content := userText }], phase := .calling }
  | none => { w with phase := .returned }

def ChatSession.start (sessionId : ℕ) : ChatSession :=
  ChatSession.next a
    { sessionId
      messages := [{ role := .system, content := "You are a helpful assistant." }]
      results := []
      phase := .pausing }

/-- `run_inference` has returned. -/
def ChatSession.record (w : ChatSession) (reply : Inference) : ChatSession :=
  { w with
    messages := w.messages ++ [{ role := .assistant, content := reply.responseFull }]
    results := w.results ++
      [{ session := .session w.sessionId
         turn := w.results.length + 1
         ttftMs := reply.ttftMs
         tpotMs := reply.tpotMs
         totalTokens := reply.totalTokens
         -- the assistant's reply is in the list already
         promptMessages := (w.messages.length + 1) - 1
         type := a.script.chatType }]
    phase := .checking }

/-- The end of the loop body, where `stop_event` is set or not. -/
def ChatSession.check (w : ChatSession) (stop : Bool) : ChatSession :=
  if stop then { w with phase := .returned }
  else if 0 < a.thinkTime ∧ (w.results.length : ℤ) - 1 < a.turns - 1 then
    { w with phase := .pausing }
  else w.next a

/-- One step of a session. -/
inductive ChatSession.Step (stop : Bool) (w : ChatSession) : ChatSession → Prop where
  | reply (calling : w.phase = .calling) (reply : Inference) : Step stop w (w.record a reply)
  | raise (calling : w.phase = .calling) : Step stop w { w with phase := .raised }
  | check (checking : w.phase = .checking) : Step stop w (w.check a stop)
  | wake (pausing : w.phase = .pausing) : Step stop w (w.next a)

/-- The session's call has returned or raised, for good. -/
def ChatSession.Ended (w : ChatSession) : Prop := w.phase = .returned ∨ w.phase = .raised

/-! ### What a session collects -/

/-- The results are those of turns 1, 2, 3, .. of the session; unless it was stopped, a session that
has returned has one for every user text. -/
structure ChatSession.Sound (stop : Bool) (w : ChatSession) : Prop where
  keys : w.results.map Row.key =
    (List.range w.results.length).map fun k => (Origin.session w.sessionId, k + 1)
  type : ∀ r ∈ w.results, r.type = a.script.chatType
  calling : w.phase = .calling → w.results.length < a.texts.length
  le : w.results.length ≤ a.texts.length
  whole : stop = false → w.phase = .returned → w.results.length = a.texts.length

namespace ChatSession

variable {a} {stop : Bool} {w w' : ChatSession}

theorem next_of_text {userText : String} (h : a.texts[w.results.length]? = some userText) :
    w.next a = { w with
      messages := w.messages ++ [{ role := .user, content := userText }], phase := .calling } := by
  unfold next
  rw [h]

theorem next_of_none (h : a.texts[w.results.length]? = none) :
    w.next a = { w with phase := .returned } := by
  unfold next
  rw [h]

@[simp] theorem next_sessionId (w : ChatSession) : (w.next a).sessionId = w.sessionId := by
  unfold next
  split <;> rfl

@[simp] theorem next_results (w : ChatSession) : (w.next a).results = w.results := by
  unfold next
  split <;> rfl

/-- A session that goes elsewhere than into a call, and does not return unless it was stopped. -/
theorem Sound.moveTo (h : w.Sound a stop) {phase : Phase} (hcalling : phase ≠ .calling)
    (hreturned : stop = false → phase ≠ .returned) : Sound a stop { w with phase := phase } :=
  ⟨h.keys, h.type, fun hphase => absurd hphase hcalling, h.le,
    fun hstop hphase => absurd hphase (hreturned hstop)⟩

theorem sound_next (h : w.Sound a stop) : (w.next a).Sound a stop := by
  have hresults := next_results (a := a) w
  have hid := next_sessionId (a := a) w
  refine ⟨by rw [hresults, hid]; exact h.keys, by rw [hresults]; exact h.type, ?_,
    by rw [hresults]; exact h.le, ?_⟩
  · intro hcalling
    rw [hresults]
    unfold next at hcalling
    split at hcalling
    · next userText htext => exact (List.getElem?_eq_some_iff.mp htext).1
    · cases hcalling
  · intro _ hreturned
    rw [hresults]
    unfold next at hreturned
    split at hreturned
    · cases hreturned
    · next htext => exact le_antisymm h.le (List.getElem?_eq_none_iff.mp htext)

theorem sound_start (sessionId : ℕ) (stop : Bool) : (start a sessionId).Sound a stop := by
  refine sound_next ⟨rfl, ?_, ?_, Nat.zero_le _, ?_⟩
  · intro r hr
    cases hr
  · intro h
    cases h
  · intro _ h
    cases h

@[simp] theorem start_sessionId (sessionId : ℕ) : (start a sessionId).sessionId = sessionId :=
  next_sessionId _

theorem sound_record (h : w.Sound a stop) (hcalling : w.phase = .calling) (reply : Inference) :
    (w.record a reply).Sound a stop := by
  have hlen : (w.record a reply).results.length = w.results.length + 1 := by
    rw [record, List.length_append, List.length_singleton]
  refine ⟨?_, ?_, ?_, ?_, ?_⟩
  · rw [hlen, List.range_succ, List.map_append, List.map_singleton]
    show (w.results ++ [_]).map Row.key = _
    rw [List.map_append, h.keys]
    rfl
  · intro r hr
    rcases List.mem_append.mp hr with hr | hr
    · exact h.type r hr
    · rw [List.mem_singleton.mp hr]
  · intro hphase
    cases hphase
  · rw [hlen]
    exact h.calling hcalling
  · intro _ hphase
    cases hphase

theorem sound_check (h : w.Sound a stop) : (w.check a stop).Sound a stop := by
  unfold check
  split_ifs with hstop hpause
  · refine h.moveTo Phase.noConfusion fun hfalse => ?_
    rw [hstop] at hfalse
    cases hfalse
  · exact h.moveTo Phase.noConfusion fun _ => Phase.noConfusion
  · exact sound_next h

/-- **Step**: what a session has collected stays in order, under its own number. -/
theorem sound_step (hs : w.Step a stop w') (h : w.Sound a stop) :
    w'.Sound a stop ∧ w'.sessionId = w.sessionId := by
  cases hs with
  | reply calling reply => exact ⟨sound_record h calling reply, rfl⟩
  | raise calling => exact ⟨h.moveTo Phase.noConfusion fun _ => Phase.noConfusion, rfl⟩
  | check checking =>
    refine ⟨sound_check h, ?_⟩
    unfold check
    split_ifs
    · rfl
    · rfl
    · exact next_sessionId w
  | wake pausing => exact ⟨sound_next h, next_sessionId w⟩

/-- A step appends to the results or leaves them. -/
theorem results_prefix (hs : w.Step a stop w') : w.results <+: w'.results := by
  cases hs with
  | reply => exact List.prefix_append _ _
  | raise => exact List.prefix_rfl
  | check =>
    unfold check
    split_ifs
    · exact List.prefix_rfl
    · exact List.prefix_rfl
    · exact (next_results w).symm ▸ List.prefix_rfl
  | wake => exact (next_results w).symm ▸ List.prefix_rfl

/-- A session that ended makes no step. -/
theorem Ended.no_step (h : w.Ended) : ¬ w.Step a stop w' := by
  intro hs
  cases hs with
  | reply hphase | raise hphase | check hphase | wake hphase =>
    rcases h with h | h <;> rw [h] at hphase <;> cases hphase

/-- Stopping can only cut a session short. -/
theorem Sound.stopped (h : w.Sound a stop) : w.Sound a true := by
  refine ⟨h.keys, h.type, h.calling, h.le, ?_⟩
  intro hfalse
  cases hfalse

end ChatSession

end InfraDemo.LoadTest
