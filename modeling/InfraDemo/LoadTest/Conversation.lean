import Mathlib.Data.List.Induction
import Mathlib.Logic.Relation
import InfraDemo.LoadTest.Session

/-!
# Conversation — the message lists that a session sends

A `Transcript` is a session with the lists it has passed to `run_inference`, the replies to them and
whether `stop_event` is set.  The list of messages is always a function of the replies (`answered`),
so each request extends the one before by a reply and the next user text.
-/

namespace InfraDemo.LoadTest

/-- The first message. -/
def systemMessage : Message := { role := .system, content := "You are a helpful assistant." }

def userMessage (text : String) : Message := { role := .user, content := text }

def assistantMessage (reply : Inference) : Message :=
  { role := .assistant, content := reply.responseFull }

/-- The messages once these replies have come. -/
def answered (texts : List String) (replies : List Inference) : List Message :=
  systemMessage :: (texts.zip replies).flatMap fun p => [userMessage p.1, assistantMessage p.2]

/-- The role at a place of the list. -/
def roleAt (i : ℕ) : Role :=
  if i = 0 then .system else if i % 2 = 1 then .user else .assistant

/-- The request that a session is in. -/
def ChatSession.request (w : ChatSession) : List (List Message) :=
  if w.phase = .calling then [w.messages] else []

structure Transcript where
  session : ChatSession
  requests : List (List Message)
  replies : List Inference
  stop : Bool

namespace Transcript

variable (a : Args)

/-- The session goes on, maybe into a call. -/
def enter (t : Transcript) (w : ChatSession) : Transcript :=
  { t with session := w, requests := t.requests ++ w.request }

def init (sessionId : ℕ) : Transcript where
  session := ChatSession.start a sessionId
  requests := (ChatSession.start a sessionId).request
  replies := []
  stop := false

/-- A step of the session, or `stop_event` is set. -/
inductive Step (t : Transcript) : Transcript → Prop where
  | reply (calling : t.session.phase = .calling) (reply : Inference) :
      Step t { t with session := t.session.record a reply, replies := t.replies ++ [reply] }
  | raise (calling : t.session.phase = .calling) :
      Step t { t with session := { t.session with phase := .raised } }
  | check (checking : t.session.phase = .checking) : Step t (t.enter (t.session.check a t.stop))
  | wake (pausing : t.session.phase = .pausing) : Step t (t.enter (t.session.next a))
  | stop : Step t { t with stop := true }

/-- The transcripts of one session, whatever it is answered and whenever it is stopped. -/
inductive Reachable (sessionId : ℕ) : Transcript → Prop where
  | init : Reachable sessionId (init a sessionId)
  | step {t t' : Transcript} (reached : Reachable sessionId t) (step : t.Step a t') :
      Reachable sessionId t'

variable {a} {t t' : Transcript} {sessionId : ℕ}

/-- A transcript keeps the books of a session. -/
theorem Step.session (h : t.Step a t') :
    t.session.Step a t.stop t'.session ∨ t'.session = t.session ∧ t'.stop = true := by
  cases h with
  | reply calling reply => exact .inl (.reply calling reply)
  | raise calling => exact .inl (.raise calling)
  | check checking => exact .inl (.check checking)
  | wake pausing => exact .inl (.wake pausing)
  | stop => exact .inr ⟨rfl, rfl⟩

/-- Every step of the session is in the books. -/
theorem exists_step {w : ChatSession} (h : t.session.Step a t.stop w) :
    ∃ t', t.Step a t' ∧ t'.session = w := by
  cases h with
  | reply calling reply => exact ⟨_, .reply calling reply, rfl⟩
  | raise calling => exact ⟨_, .raise calling, rfl⟩
  | check checking => exact ⟨_, .check checking, rfl⟩
  | wake pausing => exact ⟨_, .wake pausing, rfl⟩

/-! ### The messages -/

theorem zip_concat {α β : Type} {xs : List α} {ys : List β} {x : α} {y : β}
    (h : xs[ys.length]? = some x) : xs.zip (ys ++ [y]) = xs.zip ys ++ [(x, y)] := by
  induction ys generalizing xs with
  | nil =>
    cases xs with
    | nil => cases h
    | cons x' xs =>
      obtain rfl : x' = x := Option.some_inj.mp h
      simp
  | cons y' ys ih =>
    cases xs with
    | nil => cases h
    | cons x' xs =>
      rw [List.cons_append, List.zip_cons_cons, List.zip_cons_cons, List.cons_append]
      exact congrArg _ (ih h)

theorem answered_concat {texts : List String} {replies : List Inference} {text : String}
    (h : texts[replies.length]? = some text) (reply : Inference) :
    answered texts (replies ++ [reply]) =
      answered texts replies ++ [userMessage text, assistantMessage reply] := by
  rw [answered, zip_concat h, List.flatMap_append]
  rfl

theorem roleAt_user (k : ℕ) : roleAt (2 * k + 1) = .user := by
  rw [roleAt, if_neg (by omega), if_pos (by omega)]

theorem roleAt_assistant (k : ℕ) : roleAt (2 * k + 1 + 1) = .assistant := by
  rw [roleAt, if_neg (by omega), if_neg (by omega)]

theorem roles_succ (n : ℕ) :
    (List.range (n + 1)).map roleAt = (List.range n).map roleAt ++ [roleAt n] := by
  rw [List.range_succ, List.map_append, List.map_singleton]

/-- The roles alternate. -/
theorem roles_answered {texts : List String} {replies : List Inference}
    (h : replies.length ≤ texts.length) : (answered texts replies).map Message.role =
      (List.range (2 * replies.length + 1)).map roleAt := by
  induction replies using List.reverseRecOn with
  | nil => rw [answered, List.zip_nil_right]; rfl
  | append_singleton replies reply ih =>
    rw [List.length_append, List.length_singleton] at h
    have htext : texts[replies.length]? = some texts[replies.length] :=
      List.getElem?_eq_getElem (by omega)
    rw [answered_concat htext, List.map_append, ih (by omega), List.length_append,
      List.length_singleton]
    show _ = (List.range (2 * replies.length + 1 + 1 + 1)).map roleAt
    rw [roles_succ (2 * replies.length + 1 + 1), roles_succ (2 * replies.length + 1), roleAt_user,
      roleAt_assistant, List.append_assoc]
    rfl

/-! ### The books -/

/-- The messages are those of the replies, with the user text of a turn that is not answered yet; so
were those of every request. -/
structure Sound (a : Args) (t : Transcript) : Prop where
  results : t.session.results.length = t.replies.length
  idle : t.session.phase ≠ .calling → t.session.phase ≠ .raised →
    t.session.messages = answered a.texts t.replies ∧ t.requests.length = t.replies.length
  calling : t.session.phase = .calling → ∃ text, a.texts[t.replies.length]? = some text ∧
    t.session.messages = answered a.texts t.replies ++ [userMessage text] ∧
    t.requests.length = t.replies.length + 1
  le : t.replies.length ≤ t.requests.length ∧ t.requests.length ≤ t.replies.length + 1
  requests : ∀ k msgs, t.requests[k]? = some msgs → ∃ text, a.texts[k]? = some text ∧
    msgs = answered a.texts (t.replies.take k) ++ [userMessage text]
  counts : ∀ k row, t.session.results[k]? = some row → row.promptMessages = 2 * (k + 1)

theorem length_answered {texts : List String} {replies : List Inference}
    (h : replies.length ≤ texts.length) :
    (answered texts replies).length = 2 * replies.length + 1 := by
  have hroles := congrArg List.length (roles_answered h)
  rwa [List.length_map, List.length_map, List.length_range] at hroles

/-- The next turn starts. -/
theorem sound_turn (h : t.Sound a) (hlen : t.requests.length = t.replies.length)
    (hmessages : t.session.messages = answered a.texts t.replies) {text : String}
    (htext : a.texts[t.replies.length]? = some text) :
    (t.enter { t.session with
      messages := t.session.messages ++ [userMessage text], phase := .calling }).Sound a := by
  have hlen' : (t.requests ++ [t.session.messages ++ [userMessage text]]).length =
      t.replies.length + 1 := by
    rw [List.length_append, hlen, List.length_singleton]
  refine ⟨h.results, fun hphase => absurd rfl hphase,
    fun _ => ⟨text, htext, congrArg (· ++ _) hmessages, hlen'⟩, ⟨?_, hlen'.le⟩, ?_, h.counts⟩
  · exact (Nat.le_succ _).trans hlen'.ge
  · intro k msgs hk
    change (t.requests ++ [t.session.messages ++ [userMessage text]])[k]? = some msgs at hk
    rw [List.getElem?_append] at hk
    split_ifs at hk with hlt
    · exact h.requests k msgs hk
    · obtain ⟨hk', hmsgs⟩ := List.getElem?_eq_some_iff.mp hk
      rw [List.length_singleton] at hk'
      obtain rfl : k = t.replies.length := by omega
      refine ⟨text, htext, ?_⟩
      rw [← hmsgs, List.getElem_singleton, hmessages]
      show _ = answered a.texts (t.replies.take t.replies.length) ++ _
      rw [List.take_length]

/-- There is no more text, the session was stopped, or it pauses. -/
theorem sound_moveTo (h : t.Sound a) (hlen : t.requests.length = t.replies.length)
    (hmessages : t.session.messages = answered a.texts t.replies) {phase : Phase}
    (hcalling : phase ≠ .calling) : (t.enter { t.session with phase := phase }).Sound a := by
  have hrequest : ({ t.session with phase := phase } : ChatSession).request = [] := if_neg hcalling
  have henter : t.enter { t.session with phase := phase } =
      { t with session := { t.session with phase := phase } } := by
    rw [enter, hrequest, List.append_nil]
  rw [henter]
  exact ⟨h.results, fun _ _ => ⟨hmessages, hlen⟩, fun hphase => absurd hphase hcalling, h.le,
    h.requests, h.counts⟩

theorem sound_next (h : t.Sound a) (hcalling : t.session.phase ≠ .calling)
    (hraised : t.session.phase ≠ .raised) : (t.enter (t.session.next a)).Sound a := by
  obtain ⟨hmessages, hlen⟩ := h.idle hcalling hraised
  unfold ChatSession.next
  rw [h.results]
  split
  · next text htext => exact sound_turn h hlen hmessages htext
  · exact sound_moveTo h hlen hmessages Phase.noConfusion

theorem sound_init (sessionId : ℕ) : (init a sessionId).Sound a := by
  have h : (Transcript.mk
      { sessionId
        messages := [systemMessage]
        results := []
        phase := .pausing } [] [] false).Sound a := by
    refine ⟨rfl, fun _ _ => ⟨?_, rfl⟩, ?_, ⟨le_rfl, Nat.zero_le _⟩, ?_, ?_⟩
    · rw [answered, List.zip_nil_right]
      rfl
    · intro hphase
      cases hphase
    · intro k msgs hk
      cases hk
    · intro k row hk
      cases hk
  exact sound_next h Phase.noConfusion Phase.noConfusion

theorem sound_record (h : t.Sound a) (hcalling : t.session.phase = .calling) (reply : Inference) :
    Sound a { t with session := t.session.record a reply, replies := t.replies ++ [reply] } := by
  obtain ⟨text, htext, hmessages, hlen⟩ := h.calling hcalling
  have htexts : t.replies.length < a.texts.length := (List.getElem?_eq_some_iff.mp htext).1
  have hreplies : (t.replies ++ [reply]).length = t.replies.length + 1 := by
    rw [List.length_append, List.length_singleton]
  refine ⟨?_, fun _ _ => ⟨?_, hlen.trans hreplies.symm⟩, fun hphase => (by cases hphase),
    ⟨hreplies.le.trans hlen.ge, ?_⟩, ?_, ?_⟩
  · show (t.session.results ++ [_]).length = _
    rw [List.length_append, h.results, List.length_singleton, hreplies]
  · show t.session.messages ++ [_] = _
    rw [hmessages, answered_concat htext, List.append_assoc]
    rfl
  · rw [hlen, hreplies]
    exact Nat.le_succ _
  · intro k msgs hk
    obtain ⟨text', htext', hmsgs⟩ := h.requests k msgs hk
    have hlt : k < t.requests.length := (List.getElem?_eq_some_iff.mp hk).1
    have hk' : k ≤ t.replies.length := by omega
    refine ⟨text', htext', ?_⟩
    show msgs = answered a.texts ((t.replies ++ [reply]).take k) ++ _
    rw [List.take_append_of_le_length hk', hmsgs]
  · intro k row hk
    change (t.session.results ++ [_])[k]? = some row at hk
    rw [List.getElem?_append] at hk
    split_ifs at hk with hlt
    · exact h.counts k row hk
    · obtain ⟨hk', hrow⟩ := List.getElem?_eq_some_iff.mp hk
      rw [List.length_singleton] at hk'
      obtain rfl : k = t.session.results.length := by omega
      rw [← hrow, List.getElem_singleton, hmessages]
      simp only [List.length_append, length_answered htexts.le, List.length_singleton, h.results]
      omega

/-- **Step**: the books stay right. -/
theorem sound_step (hs : t.Step a t') (h : t.Sound a) : t'.Sound a := by
  cases hs with
  | reply calling reply => exact sound_record h calling reply
  | raise calling =>
    exact ⟨h.results, fun _ hraised => absurd rfl hraised, fun hphase => (by cases hphase), h.le,
      h.requests, h.counts⟩
  | check checking =>
    have hcalling : t.session.phase ≠ .calling := by rw [checking]; exact Phase.noConfusion
    have hraised : t.session.phase ≠ .raised := by rw [checking]; exact Phase.noConfusion
    obtain ⟨hmessages, hlen⟩ := h.idle hcalling hraised
    unfold ChatSession.check
    split_ifs
    · exact sound_moveTo h hlen hmessages Phase.noConfusion
    · exact sound_moveTo h hlen hmessages Phase.noConfusion
    · exact sound_next h hcalling hraised
  | wake pausing =>
    refine sound_next h ?_ ?_ <;> rw [pausing] <;> exact Phase.noConfusion
  | stop => exact ⟨h.results, h.idle, h.calling, h.le, h.requests, h.counts⟩

theorem reachable_sound (h : t.Reachable a sessionId) : t.Sound a := by
  induction h with
  | init => exact sound_init sessionId
  | step _ hstep ih => exact sound_step hstep ih

theorem reachable_session (h : t.Reachable a sessionId) : t.session.Sound a t.stop := by
  induction h with
  | init => exact ChatSession.sound_start sessionId false
  | step _ hstep ih =>
    cases hstep with
    | reply calling reply => exact ChatSession.sound_record ih calling reply
    | raise calling => exact (ChatSession.sound_step (.raise calling) ih).1
    | check checking => exact ChatSession.sound_check ih
    | wake pausing => exact ChatSession.sound_next ih
    | stop => exact ih.stopped

/-! ### Every session ends -/

/-- What is left to do, three steps a turn. -/
def togo (a : Args) (w : ChatSession) : ℕ :=
  3 * (a.texts.length - w.results.length) +
    match w.phase with
    | .checking => 3
    | .pausing => 2
    | .calling => 1
    | .returned | .raised => 0

theorem next_phase (w : ChatSession) :
    (w.next a).phase = .calling ∨ (w.next a).phase = .returned := by
  unfold ChatSession.next
  split
  · exact .inl rfl
  · exact .inr rfl

theorem togo_next {w : ChatSession} (h : w.phase = .checking ∨ w.phase = .pausing) :
    togo a (w.next a) < togo a w := by
  have hrank : 3 * (a.texts.length - w.results.length) + 2 ≤ togo a w := by
    unfold togo
    rcases h with h | h <;> rw [h]
    exact Nat.le_succ _
  refine lt_of_lt_of_le ?_ hrank
  unfold togo
  rw [ChatSession.next_results]
  refine Nat.add_lt_add_left ?_ _
  rcases next_phase (a := a) w with hnext | hnext
  · rw [hnext]
    exact Nat.lt_succ_self 1
  · rw [hnext]
    exact Nat.succ_pos 1

/-- Every step of a session leaves less to do. -/
theorem togo_lt {stop : Bool} {w w' : ChatSession} (hs : w.Step a stop w') (h : w.Sound a stop) :
    togo a w' < togo a w := by
  cases hs with
  | reply calling reply =>
    have hlt := h.calling calling
    have hlen : (w.record a reply).results.length = w.results.length + 1 := by
      rw [ChatSession.record, List.length_append, List.length_singleton]
    unfold togo
    rw [hlen, calling]
    show 3 * (a.texts.length - (w.results.length + 1)) + 3 <
      3 * (a.texts.length - w.results.length) + 1
    omega
  | raise calling =>
    unfold togo
    rw [calling]
    exact Nat.lt_succ_self _
  | check checking =>
    unfold ChatSession.check
    split_ifs
    · unfold togo
      rw [checking]
      exact Nat.lt_add_of_pos_right (by decide)
    · unfold togo
      rw [checking]
      exact Nat.lt_succ_self _
    · exact togo_next (.inl checking)
  | wake pausing => exact togo_next (.inr pausing)

theorem next_not_raised (w : ChatSession) : (w.next a).phase ≠ .raised := by
  rcases next_phase (a := a) w with h | h <;> rw [h] <;> exact Phase.noConfusion

theorem check_not_raised (w : ChatSession) (stop : Bool) : (w.check a stop).phase ≠ .raised := by
  unfold ChatSession.check
  split_ifs
  · exact Phase.noConfusion
  · exact Phase.noConfusion
  · exact next_not_raised w

/-- **A session that is answered returns**, with the replies it was given. -/
theorem finishes (supply : ℕ → Inference) (h : t.Reachable a sessionId)
    (hne : t.session.phase ≠ .raised) : ∃ t' m, Relation.ReflTransGen (Step a) t t' ∧
      t'.stop = t.stop ∧ t'.session.phase = .returned ∧
      t'.replies = t.replies ++ (List.range m).map fun i => supply (t.replies.length + i) := by
  induction hn : togo a t.session using Nat.strongRecOn generalizing t with
  | ind n ih =>
    subst hn
    have hsession := reachable_session h
    cases hphase : t.session.phase with
    | calling =>
      have hlt := togo_lt (.reply hphase (supply t.replies.length)) hsession
      obtain ⟨t', m, hrun, hstop, hreturned, hreplies⟩ := ih _ hlt
        (h.step (.reply hphase (supply t.replies.length))) Phase.noConfusion rfl
      refine ⟨t', m + 1, .head (.reply hphase _) hrun, hstop, hreturned, ?_⟩
      rw [hreplies, List.append_assoc, List.range_succ_eq_map, List.map_cons, List.map_map,
        List.length_append, List.length_singleton]
      refine congrArg (fun l => t.replies ++ supply t.replies.length :: l) ?_
      refine List.map_congr_left fun i _ => congrArg supply ?_
      exact Nat.succ_add_eq_add_succ _ _
    | checking =>
      have hlt := togo_lt (.check hphase) hsession
      obtain ⟨t', m, hrun, hrest⟩ := ih _ hlt (h.step (.check hphase)) (check_not_raised _ _) rfl
      exact ⟨t', m, .head (.check hphase) hrun, hrest⟩
    | pausing =>
      have hlt := togo_lt (.wake hphase) hsession
      obtain ⟨t', m, hrun, hrest⟩ := ih _ hlt (h.step (.wake hphase)) (next_not_raised _) rfl
      exact ⟨t', m, .head (.wake hphase) hrun, hrest⟩
    | returned => exact ⟨t, 0, .refl, rfl, hphase, (List.append_nil _).symm⟩
    | raised => exact absurd hphase hne

/-! ### Prefix extension -/

theorem length_texts (h : 1 ≤ a.turns) : (a.texts.length : ℤ) = min a.turns 15 := by
  unfold Args.texts sliceTo
  rw [if_pos (by omega), List.length_take]
  show ((min a.turns.toNat 15 : ℕ) : ℤ) = min a.turns 15
  omega

/-- A request has all roles in turn, up to the user text of its turn. -/
theorem request_shape (h : t.Sound a) (hlen : t.replies.length ≤ a.texts.length) {k : ℕ}
    {msgs : List Message} (hk : t.requests[k]? = some msgs) :
    msgs.length = 2 * (k + 1) ∧ msgs.map Message.role = (List.range (2 * (k + 1))).map roleAt ∧
      msgs.head? = some systemMessage ∧
      ∃ text, a.texts[k]? = some text ∧ msgs.getLast? = some (userMessage text) := by
  obtain ⟨text, htext, rfl⟩ := h.requests k msgs hk
  have hlt : k < t.requests.length := (List.getElem?_eq_some_iff.mp hk).1
  have hk' : k ≤ t.replies.length := by
    have := h.le.2
    omega
  have htake : (t.replies.take k).length = k := List.length_take_of_le hk'
  have hle : (t.replies.take k).length ≤ a.texts.length := by omega
  have hroles := roles_answered hle
  rw [htake] at hroles
  refine ⟨?_, ?_, rfl, text, htext, List.getLast?_concat⟩
  · rw [List.length_append, length_answered hle, htake, List.length_singleton]
    omega
  · show _ = (List.range (2 * k + 1 + 1)).map roleAt
    rw [List.map_append, hroles, roles_succ (2 * k + 1), roleAt_user]
    rfl

/-- The next request is this one, its reply and the next user text. -/
theorem request_extends (h : t.Sound a) {k : ℕ} {msgs msgs' : List Message}
    (hk : t.requests[k]? = some msgs) (hk' : t.requests[k + 1]? = some msgs') :
    ∃ reply text, t.replies[k]? = some reply ∧ a.texts[k + 1]? = some text ∧
      msgs' = msgs ++ [assistantMessage reply, userMessage text] := by
  obtain ⟨text, htext, rfl⟩ := h.requests k msgs hk
  obtain ⟨text', htext', rfl⟩ := h.requests (k + 1) msgs' hk'
  have hlt : k + 1 < t.requests.length := (List.getElem?_eq_some_iff.mp hk').1
  have hreply : k < t.replies.length := by
    have := h.le.2
    omega
  have htake : (t.replies.take k).length = k := List.length_take_of_le hreply.le
  refine ⟨_, text', List.getElem?_eq_getElem hreply, htext', ?_⟩
  rw [List.take_add_one, List.getElem?_eq_getElem hreply, Option.toList_some,
    answered_concat (by rw [htake]; exact htext)]
  simp only [List.append_assoc, List.cons_append, List.nil_append]

theorem turns_recorded (h : t.Reachable a sessionId) : t.session.results.map Row.turn =
    (List.range t.session.results.length).map (· + 1) := by
  have hkeys := congrArg (List.map Prod.snd) (reachable_session h).keys
  rw [List.map_map, List.map_map] at hkeys
  exact hkeys

/-- **The history grows by prefix extension**, for any replies and wherever `stop_event` is set. -/
theorem prefix_extension (hturns : 1 ≤ a.turns) (h : t.Reachable a sessionId) :
    (∀ (k : ℕ) (msgs : List Message), t.requests[k]? = some msgs → msgs.length = 2 * (k + 1) ∧
      msgs.map Message.role = (List.range (2 * (k + 1))).map roleAt ∧
      msgs.head? = some systemMessage ∧
      ∃ text, a.texts[k]? = some text ∧ msgs.getLast? = some (userMessage text)) ∧
    (∀ (k : ℕ) (msgs msgs' : List Message), t.requests[k]? = some msgs →
      t.requests[k + 1]? = some msgs' →
      ∃ reply text, t.replies[k]? = some reply ∧ a.texts[k + 1]? = some text ∧
        msgs' = msgs ++ [assistantMessage reply, userMessage text]) ∧
    (∀ (k : ℕ) (row : Row), t.session.results[k]? = some row →
      ∃ msgs : List Message, t.requests[k]? = some msgs ∧ row.promptMessages = msgs.length) ∧
    t.session.results.map Row.turn = (List.range t.session.results.length).map (· + 1) ∧
    (t.session.results.length : ℤ) ≤ min a.turns 15 ∧
    (t.stop = false → t.session.phase = .returned →
      (t.session.results.length : ℤ) = min a.turns 15) ∧
    (t.session.phase ≠ .raised → ∀ supply : ℕ → Inference, ∃ t' m,
      Relation.ReflTransGen (Step a) t t' ∧ t'.stop = t.stop ∧ t'.session.phase = .returned ∧
      t'.replies = t.replies ++ (List.range m).map fun i => supply (t.replies.length + i)) := by
  have hsound := reachable_sound h
  have hsession := reachable_session h
  have hlen : t.replies.length ≤ a.texts.length := hsound.results ▸ hsession.le
  refine ⟨fun k msgs hk => request_shape hsound hlen hk,
    fun k msgs msgs' hk hk' => request_extends hsound hk hk', ?_, turns_recorded h, ?_, ?_,
    fun hne supply => finishes supply h hne⟩
  · intro k row hk
    have hlt : k < t.session.results.length := (List.getElem?_eq_some_iff.mp hk).1
    have hrequest : k < t.requests.length := by
      have hle := hsound.le.1
      rw [hsound.results] at hlt
      omega
    refine ⟨_, List.getElem?_eq_getElem hrequest, ?_⟩
    rw [hsound.counts k row hk]
    exact (request_shape hsound hlen (List.getElem?_eq_getElem hrequest)).1.symm
  · rw [← length_texts hturns]
    exact_mod_cast hsession.le
  · intro hstop hreturned
    rw [← length_texts hturns]
    exact_mod_cast hsession.whole hstop hreturned

/-- Two turns without a pause. -/
def twoTurns : Args where
  script := .multiSession
  turns := 2
  concurrency := 1
  thinkTime := 0
  continuous := false
  mixed := false

/-- The second request of the two. -/
theorem prefix_extension_twoTurns : ∃ t : Transcript, t.Reachable twoTurns 1 ∧
    ∃ msgs msgs', t.requests = [msgs, msgs'] ∧ msgs'.length = 4 ∧ ∃ reply text,
      msgs' = msgs ++ [assistantMessage reply, userMessage text] := by
  have hinit : Reachable twoTurns 1 (init twoTurns 1) := .init
  have hreply := hinit.step (.reply rfl ⟨40, 10, 3, "yes"⟩)
  have hcheck := hreply.step (.check rfl)
  obtain ⟨hshape, hextends, -⟩ := prefix_extension (by decide) hcheck
  obtain ⟨reply, text, -, -, hmsgs⟩ := hextends 0 _ _ rfl rfl
  exact ⟨_, hcheck, _, _, rfl, (hshape 1 _ rfl).1, reply, text, hmsgs⟩

end Transcript

end InfraDemo.LoadTest
