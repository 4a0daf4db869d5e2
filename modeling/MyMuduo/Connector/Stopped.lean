import MyMuduo.Connector.Backoff

/-!
This module contains the calls of `start` and `stop` on any thread: what they store and what they have the
loop run are separate steps, and between them a stopped connector does not connect.
-/

namespace MyMuduo

namespace Connector

/--
`starting` and `stopping` count the calls of `startInLoop` and `stopInLoop` that are still to come: they are
queued, or the call of `start` or `stop` is one of the loop thread.
-/
structure Calls where
  connector : Connector
  starting : Nat
  stopping : Nat

namespace Calls

inductive Label where
  -- what a call of `start` or `stop` stores, on any thread
  | start
  | stop
  | startInLoop (savedErrno : Nat)
  | stopInLoop
  -- a step of the loop thread
  | inLoop (a : Connector.Label)
  deriving DecidableEq, Repr

-- the step begins a call of `start` or `restart`
def Label.starts : Label → Bool
  | .start | .inLoop (.start _) | .inLoop (.restart _) => true
  | _ => false

def enabled (s : Calls) : Label → Bool
  | .start | .stop => true
  | .startInLoop _ => 0 < s.starting
  | .stopInLoop => 0 < s.stopping
  | .inLoop a => s.connector.enabled a

def next (s : Calls) : Label → Option Calls
  | .start =>
    some { s with connector := { s.connector with connect_ := true }, starting := s.starting + 1 }
  | .stop =>
    some { s with connector := { s.connector with connect_ := false }, stopping := s.stopping + 1 }
  | .startInLoop savedErrno =>
    (s.connector.startInLoop savedErrno).map fun connector =>
      { s with connector := connector, starting := s.starting - 1 }
  | .stopInLoop =>
    s.connector.stopInLoop.map fun connector => { s with connector := connector, stopping := s.stopping - 1 }
  | .inLoop a => (s.connector.next a).map fun connector => { s with connector := connector }

def system : LTS Calls Label :=
  .guarded (fun s => s = ⟨.new, 0, 0⟩) enabled next

-- the timers that a step leaves, before it schedules a new one
def fired (s : Calls) : Label → List Nat
  | .inLoop a => s.connector.fired a
  | _ => s.connector.timers

def scheduled (s : Calls) (a : Label) (s' : Calls) : List Nat :=
  s'.connector.timers.drop (s.fired a).length

/--
The runs with a history: the delays of all retries that have been scheduled.
-/
def scheduling : LTS (Recorded Calls (List Nat)) Label :=
  system.recording (fun _ => []) fun delays s a s' => delays ++ s.scheduled a s'

end Calls

/--
With `connect_` off, nothing is handed over, connected or scheduled.
-/
structure Off (timers : List Nat) (s s' : Connector) : Prop where
  connect_ : s'.connect_ = false
  handed : s'.handed = s.handed
  sockets : s'.sockets = s.sockets
  timers_ : s'.timers = timers

variable {s s' : Connector} {savedErrno : Nat}

theorem Off.retry {timers : List Nat} {t : Connector} (h : Off timers s t) (sockfd : Fd)
    : Off timers s (t.retry sockfd) := by
  unfold Connector.retry
  dsimp only
  rw [if_neg]
  . exact ⟨h.connect_, h.handed, h.sockets, h.timers_⟩
  . simp [setState, close, h.connect_]

theorem off_startInLoop (h : s.connect_ = false) (heq : s.startInLoop savedErrno = some s')
    : Off s.timers s s' := by
  unfold startInLoop at heq
  rw [if_neg (by simp [h]), Option.some.injEq] at heq
  exact heq ▸ ⟨h, rfl, rfl, rfl⟩

theorem off_stopInLoop (h : s.connect_ = false) (heq : s.stopInLoop = some s') : Off s.timers s s' := by
  unfold stopInLoop at heq
  split at heq
  . simp only [Option.map_eq_some_iff] at heq
    obtain ⟨⟨t, sockfd⟩, hremoved, rfl⟩ := heq
    obtain ⟨_, _, rfl⟩ := frame_removeAndResetChannel hremoved
    apply Off.retry
    exact ⟨h, rfl, rfl, rfl⟩
  . simp only [Option.some.injEq] at heq
    exact heq ▸ ⟨h, rfl, rfl, rfl⟩

theorem off_handleWrite {err : Nat} {isSelfConnect : Bool} (h : s.connect_ = false)
    (heq : s.handleWrite err isSelfConnect = some s') : Off s.timers s s' := by
  unfold handleWrite at heq
  split at heq
  . simp only [Option.map_eq_some_iff] at heq
    obtain ⟨⟨t, sockfd⟩, hremoved, rfl⟩ := heq
    obtain ⟨_, _, rfl⟩ := frame_removeAndResetChannel hremoved
    dsimp only
    split
    . apply Off.retry
      exact ⟨h, rfl, rfl, rfl⟩
    . split
      . apply Off.retry
        exact ⟨h, rfl, rfl, rfl⟩
      . rw [if_neg (by simp [setState, h])]
        exact ⟨h, rfl, rfl, rfl⟩
  . simp only [Option.some.injEq] at heq
    exact heq ▸ ⟨h, rfl, rfl, rfl⟩

theorem off_next {a : Label} (h : s.connect_ = false) (ha : (Calls.Label.inLoop a).starts = false)
    (heq : s.next a = some s') : Off (s.fired a) s s' := by
  cases a with
  | start savedErrno => cases ha
  | restart savedErrno => cases ha
  | stop =>
    have hoff := off_stopInLoop (s := { s with connect_ := false }) rfl heq
    exact ⟨hoff.connect_, hoff.handed, hoff.sockets, hoff.timers_⟩
  | handleWrite err isSelfConnect => exact off_handleWrite h heq
  | handleError =>
    rw [handleError_eq heq]
    exact ⟨h, rfl, rfl, rfl⟩
  | timer i savedErrno =>
    have hoff := off_startInLoop (s := { s with timers := s.timers.eraseIdx i }) h heq
    exact ⟨hoff.connect_, hoff.handed, hoff.sockets, hoff.timers_⟩
  | resetChannel =>
    simp only [next, Option.some.injEq] at heq
    exact heq ▸ ⟨h, rfl, rfl, rfl⟩

namespace Calls

theorem off_step {s s' : Calls} {a : Label} (h : s.connector.connect_ = false) (ha : a.starts = false)
    (hstep : system.step s a = some s') : Off (s.fired a) s.connector s'.connector := by
  obtain ⟨_, hnext⟩ := LTS.guarded_step.mp hstep
  cases a with
  | start => cases ha
  | stop =>
    simp only [next, Option.some.injEq] at hnext
    exact hnext ▸ ⟨rfl, rfl, rfl, rfl⟩
  | startInLoop savedErrno =>
    simp only [next, Option.map_eq_some_iff] at hnext
    obtain ⟨_, hstart, rfl⟩ := hnext
    exact off_startInLoop h hstart
  | stopInLoop =>
    simp only [next, Option.map_eq_some_iff] at hnext
    obtain ⟨_, hstop, rfl⟩ := hnext
    exact off_stopInLoop h hstop
  | inLoop a =>
    simp only [next, Option.map_eq_some_iff] at hnext
    obtain ⟨_, hloop, rfl⟩ := hnext
    exact off_next h ha hloop

-- nothing has happened since a state but what `Off` allows
structure Silent (r r' : Recorded Calls (List Nat)) : Prop where
  connect_ : r'.state.connector.connect_ = false
  handed : r'.state.connector.handed = r.state.connector.handed
  sockets : r'.state.connector.sockets = r.state.connector.sockets
  scheduled : r'.history = r.history

theorem Silent.step {r r₁ r' : Recorded Calls (List Nat)} {a : Label} (h : Silent r r₁)
    (ha : a.starts = false) (hstep : scheduling.step r₁ a = some r') : Silent r r' := by
  obtain ⟨hnext, hhistory⟩ := LTS.recording_step.mp hstep
  obtain ⟨hconnect, hhanded, hsockets, htimers⟩ := off_step h.connect_ ha hnext
  refine ⟨hconnect, hhanded.trans h.handed, hsockets.trans h.sockets, ?_⟩
  rw [hhistory, Calls.scheduled, htimers, List.drop_length, List.append_nil]
  exact h.scheduled

/--
From what a call of `stop` stores to the next call of `start` or `restart`, however the steps of the loop
thread and of the callers interleave, no socket is handed over, none is made for `::connect`, and no retry is
scheduled.
-/
theorem stop_silences (r : Recorded Calls (List Nat)) (h : scheduling.Reachable r)
    (r₁ : Recorded Calls (List Nat)) (hstop : scheduling.step r .stop = some r₁) (as : List Label)
    (has : ∀ a ∈ as, a.starts = false) (r' : Recorded Calls (List Nat)) (hrun : scheduling.run r₁ as = some r')
    : r'.state.connector.handed = r.state.connector.handed
        ∧ r'.state.connector.sockets = r.state.connector.sockets ∧ r'.history = r.history := by
  have hstored : Silent r r₁ := by
    obtain ⟨hnext, hhistory⟩ := LTS.recording_step.mp hstop
    obtain ⟨_, hstored⟩ := LTS.guarded_step.mp hnext
    simp only [next, Option.some.injEq] at hstored
    have hnone : r.state.scheduled .stop r₁.state = [] := by
      rw [← hstored]
      exact List.drop_length
    refine ⟨?_, ?_, ?_, ?_⟩
    . rw [← hstored]
    . rw [← hstored]
    . rw [← hstored]
    . rw [hhistory, hnone, List.append_nil]
  have hsilent : Silent r r' := by
    refine LTS.Reachable.run_invariant (Silent r) (h.step trivial hstop) hstored ?_ hrun
    exact fun _ a _ _ hmem hsilent hstep => hsilent.step (has a hmem) hstep
  exact ⟨hsilent.handed, hsilent.sockets, hsilent.scheduled⟩

-- a queued start, a retry that waits, and an attempt in flight
def underway : List Label :=
  [.inLoop (.start ECONNREFUSED), .inLoop (.start EINPROGRESS), .start]

-- the attempt succeeds between the store and `stopInLoop`, and the rest of the work follows
def leftover : List Label :=
  [.inLoop (.handleWrite 0 false), .inLoop .resetChannel, .startInLoop EINPROGRESS,
    .inLoop (.timer 0 EINPROGRESS), .stopInLoop]

theorem stop_silences_underway
    : ∃ r r₁ r', scheduling.run ⟨⟨.new, 0, 0⟩, []⟩ underway = some r ∧ scheduling.step r .stop = some r₁
        ∧ scheduling.run r₁ leftover = some r' ∧ r.state.connector.sockets = 2 ∧ r.history = [500]
        ∧ r'.state.connector.closed = [0, 1] ∧ r'.state.connector.handed = r.state.connector.handed
        ∧ r'.state.connector.sockets = r.state.connector.sockets ∧ r'.history = r.history := by
  have h : scheduling.run ⟨⟨.new, 0, 0⟩, []⟩ underway = some _ := rfl
  have hinit : scheduling.Reachable ⟨⟨.new, 0, 0⟩, []⟩ := .init ⟨rfl, rfl⟩
  have hsilent := stop_silences _ (hinit.run h) _ rfl leftover (by decide) _ rfl
  exact ⟨_, _, _, h, rfl, rfl, rfl, rfl, rfl, hsilent⟩

end Calls

end Connector

end MyMuduo
