import MyMuduo.TcpConnection.Lifecycle
import MyMuduo.Transition.Basic

/-!
This module contains a process with any number of connections on any number of loops, in which the kernel
raises `SIGPIPE` for a `::write` on a socket whose write side is shut down or whose peer has reset it.
-/

namespace MyMuduo

universe u

namespace TcpConnection

-- what the process has told the kernel to do about `SIGPIPE`
inductive Disposition where
  | default
  | ignored
  deriving DecidableEq, Repr

/--
A connection, its `loop_`, whether `newConnection` has run for it, and what its peer has done.
-/
structure Served (κ : Type) where
  conn : TcpConnection
  loop_ : κ
  accepted : Bool
  closed : Bool
  reset : Bool

-- what is written to the socket raises `SIGPIPE`
def Served.broken {κ : Type} (x : Served κ) : Bool :=
  x.reset || x.conn.socket.contains .shutdownWrite

structure Process (ι κ : Type) where
  served : ι → Served κ
  loops : κ → EventLoop (ι × Task)
  sigpipe : Disposition
  ended : Bool

namespace Process

inductive Label (ι κ : Type) where
  | newConnection (i : ι)
  | connectDestroyed (i : ι)
  | send (i : ι) (isInLoopThread : Bool) (message : Addr) (contents : List UInt8) (w : WriteResult)
  | shutdown (i : ι) (isInLoopThread : Bool)
  | forceClose (i : ι) (isInLoopThread : Bool)
  | callback (i : ι) (n : Int) (w : WriteResult) (callback : Callback)
  | swap (k : κ)
  | runFunctor (k : κ) (message : List UInt8) (w : WriteResult)
  | peerClose (i : ι)
  | peerReset (i : ι)

variable {ι κ : Type}

-- no constructor of the library changes the disposition that the process starts with
def Started (sigpipe : Disposition) (s : Process ι κ) : Prop :=
  (∀ i, (∃ channel sockfd writeComplete highWaterMark,
      (s.served i).conn = (new channel sockfd).setCallbacks writeComplete highWaterMark)
    ∧ (s.served i).accepted = false ∧ (s.served i).closed = false ∧ (s.served i).reset = false)
    ∧ (∀ k, ∃ evtfd wakeupChannel, EventLoop.new false evtfd wakeupChannel = some (s.loops k))
    ∧ s.sigpipe = sigpipe ∧ s.ended = false

-- `sendInLoop` calls `::write`
def writesInLoop (c : TcpConnection) : Bool :=
  c.state_ ≠ .kDisconnected && c.writesDirectly

-- the connection on whose socket the step calls `::write`
def writes (s : Process ι κ) : Label ι κ → Option ι
  | .send i true _ _ _ =>
    if (s.served i).conn.connected && writesInLoop (s.served i).conn then some i else none
  | .runFunctor k _ _ =>
    match (s.loops k).functors with
    | (i, .own (.sendInLoop _ _)) :: _ => if writesInLoop (s.served i).conn then some i else none
    | _ => none
  | .callback i _ _ .write => if (s.served i).conn.channel.isWriting then some i else none
  | _ => none

def raises (s : Process ι κ) (a : Label ι κ) : Bool :=
  (s.writes a).any fun i => (s.served i).broken

-- what `::write` returns when the process goes on
def result (s : Process ι κ) (a : Label ι κ) (w : WriteResult) : WriteResult :=
  if s.raises a then .failed EPIPE else w

-- the functor at the head of the batch reads as many bytes as it was told
def reads (s : Process ι κ) (k : κ) (message : List UInt8) (w : WriteResult) : Bool :=
  match (s.loops k).functors with
  | (_, .own (.sendInLoop _ len)) :: _ => message.length = len && w.fits len
  | _ => true

def enabled (s : Process ι κ) : Label ι κ → Bool
  | .newConnection i => !s.ended && !(s.served i).accepted
  | .send _ _ _ contents w => !s.ended && w.fits contents.length
  | .callback i n w callback =>
    !s.ended && (s.served i).accepted && w.fits (s.served i).conn.outputBuffer.readableBytes
      && (callback ≠ .read || n ≠ 0 || (s.served i).closed || (s.served i).reset)
  | .runFunctor k message w => !s.ended && s.reads k message w
  | .connectDestroyed _ | .shutdown _ _ | .forceClose _ _ | .swap _ | .peerClose _ | .peerReset _ => !s.ended

/--
The error branch of `sendInLoop` and of `handleWrite`: the connection is as before.
-/
structure GaveUp (c c' : TcpConnection) : Prop where
  state_ : c'.state_ = c.state_
  channel : c'.channel = c.channel
  outputBuffer : c'.outputBuffer = c.outputBuffer

/--
A `::write` for connection `i` that costs at most that connection.
-/
structure Contained (s s' : Process ι κ) (i : ι) : Prop where
  survives : s'.ended = false
  gaveUp : (s.served i).broken = true → GaveUp (s.served i).conn (s'.served i).conn
  others : ∀ j, j ≠ i → s'.served j = s.served j

-- no `::write` on a socket that raises the signal
def WritesUnbroken (s : Process ι κ) (a : Label ι κ) : Prop :=
  ∀ i, s.writes a = some i → (s.served i).broken = false

section

variable {φ : Type u} {c : TcpConnection}

theorem sendInLoop_epipe (bind : Functor → φ) (hwrites : writesInLoop c = true) (l : EventLoop φ)
    (message : List UInt8)
    : c.sendInLoop bind l message (.failed EPIPE) = some (c.write message (.failed EPIPE), l) := by
  simp only [writesInLoop, Bool.and_eq_true, decide_eq_true_eq] at hwrites
  have hfault : c.faultError (.failed EPIPE) = true := by
    simp [faultError, hwrites.2, EPIPE, EWOULDBLOCK, EAGAIN]
  simp [sendInLoop, hwrites.1, hwrites.2, hfault, directWrite]

theorem handleWrite_failed (bind : Functor → φ) (hwriting : c.channel.isWriting = true) (l : EventLoop φ)
    (errno : Nat)
    : c.handleWrite bind l (.failed errno) = some (c.write c.outputBuffer.readable (.failed errno), l) := by
  simp [handleWrite, drain, hwriting, WriteResult.nwrote]

theorem gaveUp_write (c : TcpConnection) (message : List UInt8) (w : WriteResult)
    : GaveUp c (c.write message w) :=
  ⟨rfl, rfl, rfl⟩

end

variable {s s' : Process ι κ} {a : Label ι κ} {i : ι}

theorem result_of_broken (hwrites : s.writes a = some i) (hbroken : (s.served i).broken = true)
    (w : WriteResult) : s.result a w = .failed EPIPE := by
  simp [result, raises, hwrites, hbroken]

theorem not_ended_of_enabled (henabled : s.enabled a = true) : s.ended = false := by
  cases a <;> simp_all [enabled]

variable [DecidableEq ι] [DecidableEq κ]

def setServed (s : Process ι κ) (i : ι) (x : Served κ) : Process ι κ :=
  { s with served := Function.update s.served i x }

def setLoop (s : Process ι κ) (k : κ) (loop : EventLoop (ι × Task)) : Process ι κ :=
  { s with loops := Function.update s.loops k loop }

-- a function of the connection has run
def put (s : Process ι κ) (i : ι) (conn : TcpConnection) (loop : EventLoop (ι × Task)) : Process ι κ :=
  (s.setServed i { s.served i with conn := conn }).setLoop (s.served i).loop_ loop

def loopOf (s : Process ι κ) (i : ι) : EventLoop (ι × Task) :=
  s.loops (s.served i).loop_

def queueInLoop (s : Process ι κ) (i : ι) (task : Task) : Process ι κ :=
  s.setLoop (s.served i).loop_ ((s.loopOf i).queueInLoop false (i, task))

def act (s : Process ι κ) (a : Label ι κ) : Option (Process ι κ) :=
  match a with
  | .newConnection i => some ((s.setServed i { s.served i with accepted := true }).queueInLoop i .connectEstablished)
  | .connectDestroyed i => some (s.queueInLoop i .connectDestroyed)
  | .send i isInLoopThread message contents w =>
    ((s.served i).conn.send (fun f => (i, .own f)) isInLoopThread (s.loopOf i) message contents
      (s.result a w)).map fun (conn, loop) => s.put i conn loop
  | .shutdown i isInLoopThread =>
    let (conn, loop) := (s.served i).conn.shutdown (fun f => (i, .own f)) isInLoopThread (s.loopOf i)
    some (s.put i conn loop)
  | .forceClose i isInLoopThread =>
    let (conn, loop) := (s.served i).conn.forceClose (fun task => (i, task)) isInLoopThread (s.loopOf i)
    some (s.put i conn loop)
  | .callback i n w callback =>
    ((s.served i).conn.runCallback (fun task => (i, task)) (s.loopOf i) n (s.result a w) callback).map
      fun (conn, loop, _) => s.put i conn loop
  | .swap k => if (s.loops k).functors.isEmpty then some (s.setLoop k (s.loops k).swapFunctors) else none
  | .runFunctor k message w =>
    match (s.loops k).functors with
    | [] => none
    | (i, task) :: functors =>
      ((s.served i).conn.runTask (fun task => (i, task)) { s.loops k with functors := functors } message
        (s.result a w) task).map fun (conn, loop, _) =>
          (s.setServed i { s.served i with conn := conn }).setLoop k loop
  | .peerClose i => some (s.setServed i { s.served i with closed := true })
  | .peerReset i => some (s.setServed i { s.served i with reset := true })

-- with the default disposition the signal ends the process
def next (s : Process ι κ) (a : Label ι κ) : Option (Process ι κ) :=
  if s.raises a && s.sigpipe = .default then
    some { s with ended := true }
  else
    s.act a

def system (ι κ : Type) [DecidableEq ι] [DecidableEq κ] (sigpipe : Disposition)
    : LTS (Process ι κ) (Label ι κ) :=
  .guarded (Started sigpipe) enabled next

theorem contained_of_act (hwrites : s.writes a = some i) (hended : s.ended = false) (hact : s.act a = some s')
    : Contained s s' i := by
  cases a with
  | newConnection | connectDestroyed | shutdown | forceClose | swap | peerClose | peerReset => cases hwrites
  | send j isInLoopThread message contents w =>
    cases isInLoopThread with
    | false => cases hwrites
    | true =>
      have hresult := result_of_broken hwrites
      simp only [writes, Option.ite_none_right_eq_some, Option.some.injEq, Bool.and_eq_true] at hwrites
      obtain ⟨⟨hconnected, hwrites⟩, rfl⟩ := hwrites
      simp only [act, Option.map_eq_some_iff] at hact
      obtain ⟨⟨conn, loop⟩, hsend, rfl⟩ := hact
      refine ⟨hended, ?_, ?_⟩
      . intro hbroken
        rw [hresult hbroken] at hsend
        simp only [connected, decide_eq_true_eq] at hconnected
        rw [TcpConnection.send, if_pos hconnected, if_pos rfl, sendInLoop_epipe _ hwrites, Option.some.injEq,
          Prod.mk.injEq] at hsend
        simp only [put, setServed, setLoop, Function.update_self]
        rw [← hsend.1]
        exact gaveUp_write _ _ _
      . intro j hne
        simp [put, setServed, setLoop, Function.update_of_ne hne]
  | callback j n w callback =>
    cases callback with
    | read | close | error => cases hwrites
    | write =>
      have hresult := result_of_broken hwrites
      simp only [writes, Option.ite_none_right_eq_some, Option.some.injEq] at hwrites
      obtain ⟨hwriting, rfl⟩ := hwrites
      simp only [act, runCallback, Option.map_eq_some_iff] at hact
      obtain ⟨_, ⟨⟨conn, loop⟩, hwrite, rfl⟩, rfl⟩ := hact
      refine ⟨hended, ?_, ?_⟩
      . intro hbroken
        rw [hresult hbroken, handleWrite_failed _ hwriting, Option.some.injEq, Prod.mk.injEq] at hwrite
        simp only [put, setServed, setLoop, Function.update_self]
        rw [← hwrite.1]
        exact gaveUp_write _ _ _
      . intro j hne
        simp [put, setServed, setLoop, Function.update_of_ne hne]
  | runFunctor k message w =>
    have hresult := result_of_broken hwrites
    simp only [writes] at hwrites
    split at hwrites
    . next j pointer len functors hfunctors =>
      simp only [Option.ite_none_right_eq_some, Option.some.injEq] at hwrites
      obtain ⟨hwrites, rfl⟩ := hwrites
      simp only [act, hfunctors, runTask, Option.map_eq_some_iff] at hact
      obtain ⟨_, ⟨⟨conn, loop⟩, hsend, rfl⟩, rfl⟩ := hact
      refine ⟨hended, ?_, ?_⟩
      . intro hbroken
        rw [hresult hbroken, sendInLoop_epipe _ hwrites, Option.some.injEq, Prod.mk.injEq] at hsend
        simp only [setServed, setLoop, Function.update_self]
        rw [← hsend.1]
        exact gaveUp_write _ _ _
      . intro j hne
        simp [setServed, setLoop, Function.update_of_ne hne]
    . cases hwrites

-- no step changes the disposition
theorem sigpipe_of_act (hact : s.act a = some s') : s'.sigpipe = s.sigpipe ∧ s'.ended = s.ended := by
  cases a with
  | newConnection | connectDestroyed | shutdown | forceClose | peerClose | peerReset =>
    simp only [act, Option.some.injEq] at hact
    subst hact
    exact ⟨rfl, rfl⟩
  | send | callback =>
    simp only [act, Option.map_eq_some_iff] at hact
    obtain ⟨_, _, rfl⟩ := hact
    exact ⟨rfl, rfl⟩
  | swap k =>
    simp only [act, Option.ite_none_right_eq_some, Option.some.injEq] at hact
    obtain ⟨_, rfl⟩ := hact
    exact ⟨rfl, rfl⟩
  | runFunctor k message w =>
    simp only [act] at hact
    split at hact
    . cases hact
    . simp only [Option.map_eq_some_iff] at hact
      obtain ⟨_, _, rfl⟩ := hact
      exact ⟨rfl, rfl⟩

theorem sigpipe_reachable {sigpipe : Disposition} (h : (system ι κ sigpipe).Reachable s)
    : s.sigpipe = sigpipe := by
  apply h.invariant (fun s => s.sigpipe = sigpipe)
  . exact fun s hstarted => hstarted.2.2.1
  . intro s a s' hsigpipe hstep
    obtain ⟨_, hnext⟩ := LTS.guarded_step.mp hstep
    unfold next at hnext
    split at hnext
    . simp only [Option.some.injEq] at hnext
      subst hnext
      exact hsigpipe
    . exact (sigpipe_of_act hnext).1.trans hsigpipe

/--
A `::write` is contained unless it raises the signal.
-/
theorem contained_iff (h : (system ι κ .default).Reachable s) (hwrites : s.writes a = some i)
    (hstep : (system ι κ .default).step s a = some s')
    : Contained s s' i ↔ (s.served i).broken = false := by
  obtain ⟨henabled, hnext⟩ := LTS.guarded_step.mp hstep
  have hraises : s.raises a = (s.served i).broken := by
    simp [raises, hwrites]
  unfold next at hnext
  rw [hraises, sigpipe_reachable h] at hnext
  cases hbroken : (s.served i).broken with
  | true =>
    simp only [hbroken, decide_true, Bool.and_self, if_true, Option.some.injEq] at hnext
    subst hnext
    simp only [Bool.true_eq_false, iff_false]
    intro hcontained
    cases hcontained.survives
  | false =>
    simp only [hbroken, Bool.false_and, Bool.false_eq_true, if_false] at hnext
    simp only [iff_true]
    exact contained_of_act hwrites (not_ended_of_enabled henabled) hnext

/--
With the signal ignored every `::write` is contained.
-/
theorem contained_of_ignored (h : (system ι κ .ignored).Reachable s) (hwrites : s.writes a = some i)
    (hstep : (system ι κ .ignored).step s a = some s') : Contained s s' i := by
  obtain ⟨henabled, hnext⟩ := LTS.guarded_step.mp hstep
  simp only [next, sigpipe_reachable h, reduceCtorEq, decide_false, Bool.and_false, Bool.false_eq_true,
    if_false] at hnext
  exact contained_of_act hwrites (not_ended_of_enabled henabled) hnext

theorem not_ended_of_step (hended : s.ended = false) (hok : s.WritesUnbroken a)
    {sigpipe : Disposition} (hstep : (system ι κ sigpipe).step s a = some s') : s'.ended = false := by
  obtain ⟨_, hnext⟩ := LTS.guarded_step.mp hstep
  have hraises : s.raises a = false := by
    cases hwrites : s.writes a with
    | none => simp [raises, hwrites]
    | some i => simp [raises, hwrites, hok i hwrites]
  simp only [next, hraises, Bool.false_and, Bool.false_eq_true, if_false] at hnext
  exact (sigpipe_of_act hnext).2.trans hended

/--
As long as nothing is written to a socket that is shut down or reset, the process goes on, and what is
written then is contained exactly when it is not written to such a socket.
-/
theorem writes_contained (h : (system ι κ .default).ReachableBy WritesUnbroken s)
    : s.ended = false ∧ ∀ a i s', s.writes a = some i → (system ι κ .default).step s a = some s' →
        (Contained s s' i ↔ (s.served i).broken = false) := by
  constructor
  . apply h.invariant fun s => s.ended = false
    . exact fun s hstarted => hstarted.2.2.2
    . exact fun s a s' hended hok hstep => not_ended_of_step hended hok hstep
  . exact fun a i s' hwrites hstep => contained_iff h.reachable hwrites hstep

-- connections on the descriptors 7 and 8 of one loop
def started : Process Bool Unit where
  served i := ⟨if i then new 3 8 else new 2 7, (), false, false, false⟩
  loops _ := .constructed _
  sigpipe := .default
  ended := false

theorem started_init : Started .default started := by
  refine ⟨?_, fun _ => ⟨3, 1, EventLoop.new_constructed⟩, rfl, rfl⟩
  intro i
  refine ⟨?_, rfl, rfl, rfl⟩
  cases i with
  | false => exact ⟨2, 7, false, false, rfl⟩
  | true => exact ⟨3, 8, false, false, rfl⟩

-- both connections are established, and one of two bytes waits on the second one
def servingBoth : List (Label Bool Unit) :=
  [.newConnection false, .newConnection true, .swap (), .runFunctor () [] (.accepted 0),
    .runFunctor () [] (.accepted 0), .send true true 100 [1, 2] (.accepted 1)]

instance (s : Process ι κ) (a : Label ι κ) : Decidable (s.WritesUnbroken a) :=
  match h : s.writes a with
  | none => .isTrue fun _ hi => nomatch h.symm.trans hi
  | some i =>
    decidable_of_iff ((s.served i).broken = false)
      ⟨fun hi _ hj => Option.some.inj (h.symm.trans hj) ▸ hi, fun hall => hall i h⟩

set_option maxRecDepth 8000 in
theorem writes_contained_servingBoth
    : ∃ s s', (system Bool Unit .default).runChecked (fun s a => s.WritesUnbroken a) started servingBoth = some s
        ∧ s.writes (.callback true 0 (.accepted 1) .write) = some true
        ∧ (system Bool Unit .default).step s (.callback true 0 (.accepted 1) .write) = some s'
        ∧ Contained s s' true := by
  have h : (system Bool Unit .default).runChecked (fun s a => s.WritesUnbroken a) started servingBoth = some _ := rfl
  have hcontained := (writes_contained (LTS.ReachableBy.runChecked (by simp) (.init started_init) h)).2
  exact ⟨_, _, h, rfl, rfl, (hcontained (.callback true 0 (.accepted 1) .write) true _ rfl rfl).mpr rfl⟩

-- another thread sends on the first connection, and the loop thread shuts it down before it takes the functors
def halfClosing : List (Label Bool Unit) :=
  [.send false false 200 [3] (.accepted 0), .shutdown false true, .swap ()]

set_option maxRecDepth 8000 in
/--
One connection is shut down on its loop while a `sendInLoop` of another thread waits, which then ends the
process.
-/
theorem halfClose_ends_process
    : ∃ s s', (system Bool Unit .default).Reachable s ∧ (s.served false).reset = false
        ∧ s.writes (.runFunctor () [3] (.accepted 1)) = some false
        ∧ (system Bool Unit .default).step s (.runFunctor () [3] (.accepted 1)) = some s'
        ∧ (s.served true).conn.outputBuffer.readable = [2] ∧ s'.ended = true ∧ ¬Contained s s' false := by
  have h : (system Bool Unit .default).run started (servingBoth ++ halfClosing) = some _ := rfl
  refine ⟨_, _, LTS.Reachable.run (.init started_init) h, rfl, rfl, rfl, rfl, rfl, ?_⟩
  intro hcontained
  cases hcontained.survives

end Process

end TcpConnection

end MyMuduo
