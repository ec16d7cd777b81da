import InfraDemo.Lib.Crew
import InfraDemo.LoadTest.Session

/-!
# Stopping — what is sent after `stop_event` is set

`ChatSession` makes the check of `stop_event`, the decision to pause and the head of the loop in one
step.  Here each is a step of its own (`Thread`), so that the event can be set between any two, and the
requests are counted as they are sent; `step_refines` takes the threads back to the sessions.
-/

namespace InfraDemo.LoadTest

open Relation

/-- Where a thread is: at the head of the loop, inside `run_inference`, right after it, past the check
of `stop_event`, in the pause, or done. -/
inductive Spot where
  | head
  | calling
  | checking
  | passed
  | pausing
  | returned
  | raised
  deriving DecidableEq

structure Thread where
  sessionId : ℕ
  messages : List Message
  results : List Row
  spot : Spot
  /-- the number of requests it has sent; no variable of the source -/
  sent : ℕ

namespace Thread

variable (a : Args)

/-- `run_chat_session` has been submitted. -/
def fresh (sessionId : ℕ) : Thread where
  sessionId := sessionId
  messages := [{ role := .system, content := "You are a helpful assistant." }]
  results := []
  spot := .head
  sent := 0

/-- The session in some phase. -/
def inPhase (t : Thread) (phase : Phase) : ChatSession where
  sessionId := t.sessionId
  messages := t.messages
  results := t.results
  phase := phase

/-- `run_inference` has returned. -/
def record (t : Thread) (reply : Inference) : Thread :=
  { t with
    messages := ((t.inPhase .calling).record a reply).messages
    results := ((t.inPhase .calling).record a reply).results
    spot := .checking }

/-- There is a pause after this turn. -/
def Pauses (t : Thread) : Prop := 0 < a.thinkTime ∧ (t.results.length : ℤ) - 1 < a.turns - 1

/-- One step of a thread; `wait` ends when the time is over or `stop_event` is set. -/
inductive Step (stop : Bool) (t : Thread) : Thread → Prop where
  | turn {userText : String} (head : t.spot = .head)
      (text : a.texts[t.results.length]? = some userText) :
      Step stop t { t with
        messages := t.messages ++ [{ role := .user, content := userText }]
        spot := .calling
        sent := t.sent + 1 }
  | finish (head : t.spot = .head) (text : a.texts[t.results.length]? = none) :
      Step stop t { t with spot := .returned }
  | reply (calling : t.spot = .calling) (reply : Inference) : Step stop t (t.record a reply)
  | raise (calling : t.spot = .calling) : Step stop t { t with spot := .raised }
  | leave (checking : t.spot = .checking) (set : stop = true) :
      Step stop t { t with spot := .returned }
  | pass (checking : t.spot = .checking) (unset : stop = false) :
      Step stop t { t with spot := .passed }
  | pause (passed : t.spot = .passed) (pauses : t.Pauses a) : Step stop t { t with spot := .pausing }
  | skip (passed : t.spot = .passed) (goesOn : ¬ t.Pauses a) : Step stop t { t with spot := .head }
  | wake (pausing : t.spot = .pausing) : Step stop t { t with spot := .head }

/-- The session that a thread is.  What a thread still does before it calls or pauses, its session has
done in the step before. -/
def chat (t : Thread) : ChatSession :=
  match t.spot with
  | .head => (t.inPhase .pausing).next a
  | .calling => t.inPhase .calling
  | .checking => t.inPhase .checking
  | .passed => (t.inPhase .checking).check a false
  | .pausing => t.inPhase .pausing
  | .returned => t.inPhase .returned
  | .raised => t.inPhase .raised

/-- Before its next request, with a user text left for it. -/
def Pending (t : Thread) : Prop :=
  (t.spot = .head ∨ t.spot = .passed ∨ t.spot = .pausing) ∧ t.results.length < a.texts.length

variable {a} {stop : Bool} {t t' : Thread}

/-! ### Threads and sessions -/

theorem next_inPhase (t : Thread) (phase : Phase) :
    (t.inPhase phase).next a = (t.inPhase .pausing).next a := by
  cases h : a.texts[t.results.length]? with
  | some userText =>
    rw [ChatSession.next_of_text (w := t.inPhase phase) h,
      ChatSession.next_of_text (w := t.inPhase .pausing) h]
    rfl
  | none =>
    rw [ChatSession.next_of_none (w := t.inPhase phase) h,
      ChatSession.next_of_none (w := t.inPhase .pausing) h]
    rfl

/-- **A thread's step is one of its session**, or none. -/
theorem step_refines (hs : t.Step a stop t') :
    t'.chat a = t.chat a ∨ (t.chat a).Step a stop (t'.chat a) := by
  cases hs with
  | turn head text =>
    left
    rw [chat, chat, head]
    exact (ChatSession.next_of_text (w := t.inPhase .pausing) text).symm
  | finish head text =>
    left
    rw [chat, chat, head]
    exact (ChatSession.next_of_none (w := t.inPhase .pausing) text).symm
  | reply calling reply =>
    right
    rw [chat, chat, calling]
    exact .reply rfl reply
  | raise calling =>
    right
    rw [chat, chat, calling]
    exact .raise rfl
  | leave checking set =>
    right
    subst set
    rw [chat, chat, checking]
    exact .check rfl
  | pass checking unset =>
    right
    subst unset
    rw [chat, chat, checking]
    exact .check rfl
  | pause passed pauses =>
    left
    rw [chat, chat, passed]
    exact (if_neg Bool.false_ne_true).trans (if_pos pauses) |>.symm
  | skip passed goesOn =>
    left
    rw [chat, chat, passed]
    have hcheck : (t.inPhase .checking).check a false = (t.inPhase .checking).next a :=
      (if_neg Bool.false_ne_true).trans (if_neg goesOn)
    exact (hcheck.trans (next_inPhase t .checking)).symm
  | wake pausing =>
    right
    rw [chat, chat, pausing]
    exact .wake rfl

/-! ### After the stop -/

/-- A thread that is not before a request stays so, and sends none. -/
theorem quiet_step (hs : t.Step a true t') (h : ¬ t.Pending a) :
    ¬ t'.Pending a ∧ t'.sent = t.sent := by
  have hkeep : ∀ spot, t.spot = .head ∨ t.spot = .passed ∨ t.spot = .pausing →
      ¬ Pending a { t with spot := spot } := fun spot hspot hpending => h ⟨hspot, hpending.2⟩
  have hdone : ∀ {u : Thread}, u.spot ≠ .head → u.spot ≠ .passed → u.spot ≠ .pausing →
      ¬ u.Pending a := by
    rintro u hhead hpassed hpausing ⟨hspot | hspot | hspot, -⟩
    · exact hhead hspot
    · exact hpassed hspot
    · exact hpausing hspot
  cases hs with
  | turn head text =>
    exact absurd ⟨.inl head, (List.getElem?_eq_some_iff.mp text).1⟩ h
  | finish | raise | leave =>
    exact ⟨hdone Spot.noConfusion Spot.noConfusion Spot.noConfusion, rfl⟩
  | reply => exact ⟨hdone Spot.noConfusion Spot.noConfusion Spot.noConfusion, rfl⟩
  | pass checking unset => cases unset
  | pause passed pauses => exact ⟨hkeep _ (.inr (.inl passed)), rfl⟩
  | skip passed goesOn => exact ⟨hkeep _ (.inr (.inl passed)), rfl⟩
  | wake pausing => exact ⟨hkeep _ (.inr (.inr pausing)), rfl⟩

theorem quiet_run (hs : ReflTransGen (Step a true) t t') (h : ¬ t.Pending a) :
    ¬ t'.Pending a ∧ t'.sent = t.sent := by
  induction hs with
  | refl => exact ⟨h, rfl⟩
  | tail _ hstep ih =>
    obtain ⟨hquiet, hsent⟩ := quiet_step hstep ih.1
    exact ⟨hquiet, hsent.trans ih.2⟩

/-- What becomes of a request in flight: it goes on, fails, or its result is recorded and the thread
returns. -/
def Finishes (a : Args) (t t' : Thread) : Prop :=
  t' = t ∨ t' = { t with spot := .raised } ∨
    ∃ reply, t' = t.record a reply ∨ t' = { t.record a reply with spot := .returned }

theorem finishes_run (hs : ReflTransGen (Step a true) t t') (h : t.spot = .calling) :
    Finishes a t t' := by
  induction hs with
  | refl => exact .inl rfl
  | tail _ hstep ih =>
    rcases ih with rfl | rfl | ⟨reply, rfl | rfl⟩
    · cases hstep with
      | reply calling reply => exact .inr (.inr ⟨reply, .inl rfl⟩)
      | raise calling => exact .inr (.inl rfl)
      | turn hspot | finish hspot | leave hspot | pass hspot | pause hspot | skip hspot
      | wake hspot =>
        rw [h] at hspot
        cases hspot
    · cases hstep with
      | turn hspot | finish hspot | leave hspot | pass hspot | pause hspot | skip hspot | wake hspot
      | reply hspot | raise hspot => cases hspot
    · cases hstep with
      | leave checking set => exact .inr (.inr ⟨reply, .inr rfl⟩)
      | turn hspot | finish hspot | pass _ hspot | pause hspot | skip hspot | wake hspot
      | reply hspot | raise hspot => cases hspot
    · cases hstep with
      | turn hspot | finish hspot | leave hspot | pass hspot | pause hspot | skip hspot | wake hspot
      | reply hspot | raise hspot => cases hspot

/-- A thread before a request goes on to send it. -/
theorem pending_sends (h : t.Pending a) : ∃ t', ReflTransGen (Step a stop) t t' ∧
    t'.sent = t.sent + 1 := by
  obtain ⟨hspot, hlt⟩ := h
  have htext : a.texts[t.results.length]? = some a.texts[t.results.length] :=
    List.getElem?_eq_getElem hlt
  have hhead : ReflTransGen (Step a stop) t { t with spot := .head } := by
    rcases hspot with hspot | hspot | hspot
    · rw [← hspot]
    · by_cases hpauses : t.Pauses a
      · exact .tail (.single (.pause hspot hpauses)) (.wake rfl)
      · exact .single (.skip hspot hpauses)
    · exact .single (.wake hspot)
  exact ⟨_, hhead.tail (.turn rfl htext), rfl⟩

end Thread

/-! ### The threads of a run -/

structure Floor where
  threads : List Thread
  stop : Bool

namespace Floor

variable (a : Args)

/-- `concurrency` sessions were submitted. -/
def init : Floor where
  threads := (List.range a.concurrency).map fun i => Thread.fresh (i + 1)
  stop := false

/-- A thread makes a step, the main thread submits a session, which it does no more once it has set
`stop_event`, or it sets it. -/
inductive Step (f : Floor) : Floor → Prop where
  | thread {i : ℕ} {t t' : Thread} (place : f.threads[i]? = some t) (step : t.Step a f.stop t') :
      Step f { f with threads := f.threads.set i t' }
  | submit (running : f.stop = false) (sessionId : ℕ) :
      Step f { f with threads := f.threads ++ [Thread.fresh sessionId] }
  | stop : Step f { f with stop := true }

def Reachable (f : Floor) : Prop := ReflTransGen (Step a) (init a) f

/-- Stopped now, no thread sends a request any more, and those in flight finish. -/
def StopsClean (f : Floor) : Prop := ∀ f', ReflTransGen (Step a) { f with stop := true } f' →
  List.Forall₂ (fun t t' => t'.sent = t.sent ∧ (t.spot = .calling → t.Finishes a t'))
    f.threads f'.threads

variable {a} {f f' : Floor}

/-- After the stop there are the threads only. -/
theorem crew_of_stopped (h : ReflTransGen (Step a) f f') (hstop : f.stop = true) :
    f'.stop = true ∧ ReflTransGen (Crew.Step (Thread.Step a true)) f.threads f'.threads := by
  induction h with
  | refl => exact ⟨hstop, .refl⟩
  | tail _ hstep ih =>
    obtain ⟨hset, hrun⟩ := ih
    cases hstep with
    | thread place step =>
      rw [hset] at step
      exact ⟨hset, hrun.tail (.thread place step)⟩
    | submit running =>
      rw [hset] at running
      cases running
    | stop => exact ⟨rfl, hrun⟩

/-- The threads of a crew are those of a floor. -/
theorem run_of_crew {l l' : List Thread} {stop : Bool}
    (h : ReflTransGen (Crew.Step (Thread.Step a stop)) l l') :
    ReflTransGen (Step a) ⟨l, stop⟩ ⟨l', stop⟩ := by
  induction h with
  | refl => exact .refl
  | tail _ hstep ih =>
    cases hstep with
    | thread place step => exact ih.tail (.thread place step)

theorem not_clean_of_pending {t : Thread} (ht : t ∈ f.threads) (hpending : t.Pending a) :
    ¬ f.StopsClean a := by
  intro h
  obtain ⟨i, hlt, rfl⟩ := List.getElem_of_mem ht
  obtain ⟨t', hrun, hsent⟩ : ∃ t', ReflTransGen (Thread.Step a true) f.threads[i] t' ∧
      t'.sent = f.threads[i].sent + 1 := Thread.pending_sends hpending
  have hcrew := Crew.runs_set (List.getElem?_eq_getElem hlt) hrun
  obtain ⟨-, hall⟩ := List.forall₂_iff_get.mp (h _ (run_of_crew hcrew))
  have hsame := (hall i hlt (by rwa [List.length_set])).1
  simp only [List.get_eq_getElem, List.getElem_set_self] at hsame
  omega

/-- **When stopping starts no new request**: no thread is between two requests, or before its first,
with a user text left. -/
theorem stops_clean_iff (a : Args) (f : Floor) :
    f.StopsClean a ↔ ∀ t ∈ f.threads, ¬ t.Pending a := by
  constructor
  · intro h t ht hpending
    exact not_clean_of_pending ht hpending h
  · intro h f' hrun
    obtain ⟨-, hcrew⟩ := crew_of_stopped hrun rfl
    have hthreads := (List.forall₂_and_left _ _).mpr ⟨h, Crew.project hcrew⟩
    refine hthreads.imp fun t t' ⟨hquiet, hruns⟩ => ⟨?_, Thread.finishes_run hruns⟩
    exact (Thread.quiet_run hruns hquiet).2

/-- One session of two turns, with a pause between them. -/
def thinking : Args where
  script := .multiSession
  turns := 2
  concurrency := 1
  thinkTime := 5
  continuous := false
  mixed := false

theorem thinking_pauses : ∃ t : Thread, Reachable thinking ⟨[t], false⟩ ∧ t.spot = .pausing ∧
    t.Pending thinking := by
  have hturn : ReflTransGen (Thread.Step thinking false) (Thread.fresh 1) _ :=
    .single (.turn rfl rfl)
  have hreply := hturn.tail (.reply rfl ⟨40, 10, 3, "yes"⟩)
  have hpass := hreply.tail (.pass rfl rfl)
  have hpause := hpass.tail (.pause rfl ⟨by decide, by decide⟩)
  have hplace : [Thread.fresh 1][0]? = some (Thread.fresh 1) := rfl
  exact ⟨_, run_of_crew (Crew.runs_set hplace hpause), rfl, .inr (.inr rfl), by decide⟩

/-- A session that pauses between two turns sends the second after the stop. -/
theorem pausing_session_sends :
    ¬ ∀ (a : Args) (f : Floor), f.Reachable a → f.stop = false →
      (∀ t ∈ f.threads, t.spot = .calling ∨ t.spot = .pausing) → f.StopsClean a := by
  intro h
  obtain ⟨t, ht, hspot, hpending⟩ := thinking_pauses
  have hspots : ∀ u ∈ [t], u.spot = .calling ∨ u.spot = .pausing := by
    intro u hu
    rw [List.mem_singleton.mp hu]
    exact .inr hspot
  exact not_clean_of_pending (List.mem_singleton_self t) hpending (h thinking _ ht rfl hspots)

end Floor

end InfraDemo.LoadTest
