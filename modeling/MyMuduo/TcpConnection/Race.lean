import MyMuduo.EventLoop.Threads
import MyMuduo.TcpConnection.Life

/-!
This module contains the interleavings of the loop thread of one established connection, its server and any
number of threads that call `send`, `shutdown` and `forceClose`. Each load and each store of `state_` is a
step of its own, and the connection is destroyed when its last strong reference goes away.
-/

namespace MyMuduo

universe u

namespace TcpConnection

open EventLoop (Thread)

section

variable {φ : Type u}

-- `setState(kDisconnected)` and `disableAll`, as in `handleClose` and in `connectDestroyed`
def disconnect (c : TcpConnection) (l : EventLoop φ) : Option (TcpConnection × EventLoop φ) :=
  let c := c.setState .kDisconnected
  (c.channel.disableAll l.poller).map fun (poller, channel) =>
    ({ c with channel := channel }, { l with poller := poller })

-- the end of `connectDestroyed`
def removeChannel (c : TcpConnection) (l : EventLoop φ) : Option (TcpConnection × EventLoop φ) :=
  (c.channel.remove l.poller).map fun (poller, channel) =>
    ({ c with channel := channel }, { l with poller := poller })

end

namespace Task

-- the functor holds a `shared_ptr` to the connection, and not `this`
def binds : Task → Bool
  | .own f => f.isNotice
  | _ => true

-- the functor is a callback of the user
def runsUserCode : Task → Bool
  | .own f => f.isNotice
  | _ => false

end Task

namespace Race

/--
Where the loop thread is: between two handlers, in a callback of the user that has the connection as its
argument, in `handleWrite` and in `forceCloseInLoop` before their second test of `state_`, or in
`handleClose` and `connectDestroyed` before and behind their store and in `connectionCallback_`.
-/
inductive LoopPc where
  | idle
  | userCallback
  | drained
  | closing
  | closeStored
  | closeTold
  | forceTest
  | destroying
  | destroyStored
  | destroyTold
  deriving DecidableEq, Repr

/--
What a thread is about to do: `sending`, `shuttingDown` and `forcing` have seen that the connection is open,
`forceTest` has seen that it is not `kConnected`, `shutDown` and `forced` have stored `kDisconnecting`.
-/
inductive Caller where
  | idle
  | sending (message : Addr) (len : Nat)
  | shuttingDown
  | shutDown
  | forceTest
  | forcing
  | forced
  deriving DecidableEq, Repr

inductive Call where
  | send (message : Addr) (len : Nat)
  | shutdown
  | forceClose
  deriving DecidableEq, Repr

-- what the first load of `state_` leads to
def Call.load (c : TcpConnection) : Call → Caller
  | .send message len => if c.state_ = .kConnected then .sending message len else .idle
  | .shutdown => if c.state_ = .kConnected then .shuttingDown else .idle
  | .forceClose => if c.state_ = .kConnected then .forcing else .forceTest

-- the loop thread is in a callback that has the connection as its argument
def LoopPc.hasArgument : LoopPc → Bool
  | .userCallback | .closeTold | .destroyTold => true
  | _ => false

-- what refers to the connection with a `shared_ptr`
inductive Ref (τ : Type) where
  | connections
  | removal
  | removed
  | handle (t : Thread τ)
  | functor (task : Task)
  | handler
  deriving DecidableEq, Repr

inductive Label (τ : Type) where
  | life (a : Life.Label)
  | callback (n : Int) (w : WriteResult)
  | runFunctor (message : List UInt8) (w : WriteResult)
  | destroyServer
  | resume
  | endRemovals
  | call (t : Thread τ) (c : Call)
  | advance (t : Thread τ) (contents : List UInt8) (w : WriteResult)
  | share (t : Thread τ)
  | drop (t : Thread τ)

end Race

/--
`handles` lists the `TcpConnectionPtr`s of the user by the thread that owns them, `ran` are the functors of the
batch that have been executed, and `removed` counts the functors with `removeConnectionInLoop` that have
been executed in an unfinished batch of the base loop. The last two fields are history: whether the
destructor has run, and whether `kDisconnected` was ever stored.
-/
structure Race (τ : Type) extends Life where
  pc : Race.LoopPc
  callers : Thread τ → Race.Caller
  handles : List (Thread τ)
  ran : List Task
  removed : Nat
  freed : Bool
  wasDown : Bool

namespace Race

variable {τ : Type}

/--
A connection whose `connectEstablished` has just called `connectionCallback_`.
-/
def Established (s : Race τ) : Prop :=
  s.toLife.Established ∧ s.pc = .userCallback ∧ (∀ t, s.callers t = .idle)
    ∧ s.ran = (if s.phase = .functors then [.connectEstablished] else [])
    ∧ (s.inMap = true ∨ .connectDestroyed ∈ s.queue) ∧ s.removed = 0 ∧ s.freed = false ∧ s.wasDown = false

-- the strong references; a handler keeps one for as long as it runs
def refs (s : Race τ) : List (Ref τ) :=
  (if s.inMap then [.connections] else []) ++ List.replicate s.removing .removal
    ++ List.replicate s.removed .removed ++ s.handles.map .handle
    ++ ((s.ran ++ s.queue).filter Task.binds).map .functor
    ++ (if s.pc = .idle ∧ s.todo = [] then [] else [.handler])

variable [DecidableEq τ]

def loopIdle (s : Race τ) : Bool :=
  s.callers .loop = .idle && s.pc = .idle

-- the loop thread calls from callbacks, the other threads at any time
def mayCall (s : Race τ) (t : Thread τ) : Bool :=
  s.callers t = .idle
    && (t ∈ s.handles && (t ≠ .loop || s.pc = .idle) || t = .loop && s.pc.hasArgument)

def enabled (s : Race τ) : Label τ → Bool
  | .life a => a.leavesAlone && (a.ofBaseLoop || s.loopIdle) && s.toLife.enabled a
  | .callback _ w => s.loopIdle && w.fits s.conn.outputBuffer.readableBytes
  | .runFunctor message w => s.loopIdle && s.toLife.enabled (.runFunctor message w)
  | .destroyServer => s.loopIdle && s.inMap
  | .resume => s.callers .loop = .idle
  | .endRemovals => true
  | .call t _ => s.mayCall t
  | .advance t contents w =>
    match s.callers t with
    | .sending _ len => contents.length = len && w.fits len
    | _ => true
  | .share _ => !s.handles.isEmpty || s.callers .loop = .idle && s.pc.hasArgument
  | .drop t => s.callers t = .idle && t ∈ s.handles

def setCaller (s : Race τ) (t : Thread τ) (c : Caller) : Race τ :=
  { s with callers := Function.update s.callers t c }

-- the start of `connectDestroyed`
def startDestroy (s : Race τ) : Option (Race τ) :=
  let s := { s with destroyed := true }
  if s.conn.state_ = .kConnected then
    some { s with pc := .destroying }
  else
    (s.conn.removeChannel s.loop).map fun (conn, loop) => { s with conn := conn, loop := loop }

-- the start of a callback of the channel
def callback (s : Race τ) (n : Int) (w : WriteResult) : Option (Race τ) :=
  match s.todo with
  | [] => none
  | callback :: todo =>
    let s := { s with todo := todo }
    match callback with
    | .read =>
      if 0 < n then
        some { s with notices := s.notices ++ [.messageCallback], pc := .userCallback }
      else if n = 0 then
        some { s with pc := .closing }
      else
        some s
    | .write =>
      (s.conn.drain .own s.loop w).map fun (conn, loop, drained) =>
        { s with conn := conn, loop := loop, pc := if drained then .drained else .idle }
    | .close => some { s with pc := .closing }
    | .error => some s

-- a functor is taken out of the batch
def pop (s : Race τ) (task : Task) (functors : List Task) : Race τ :=
  { s with loop := { s.loop with functors := functors }, ran := s.ran ++ [task] }

-- the start of a functor
def runFunctor (s : Race τ) (message : List UInt8) (w : WriteResult) : Option (Race τ) :=
  match s.loop.functors with
  | [] => none
  | task :: functors =>
    let s := s.pop task functors
    match task with
    | .connectDestroyed => s.startDestroy
    | .forceCloseInLoop =>
      some { s with pc := if s.conn.state_ = .kConnected then .closing else .forceTest }
    | task =>
      (s.conn.runTask id s.loop message w task).map fun r =>
        { s with toLife := s.toLife.told r, pc := if task.runsUserCode then .userCallback else .idle }

-- the next statement of the handler that the loop thread is in
def resume (s : Race τ) : Option (Race τ) :=
  match s.pc with
  | .idle => none
  | .userCallback => some { s with pc := .idle }
  | .drained => some { s with conn := s.conn.shutdownIfDisconnecting, pc := .idle }
  | .closing =>
    (s.conn.disconnect s.loop).map fun (conn, loop) =>
      { s with conn := conn, loop := loop, wasDown := true, pc := .closeStored }
  | .closeStored =>
    some { s with notices := s.notices ++ [.connectionCallback s.conn.connected], pc := .closeTold }
  | .closeTold =>
    some { s with notices := s.notices ++ [.closeCallback], removing := s.removing + 1, pc := .idle }
  | .forceTest => some { s with pc := if s.conn.state_ = .kDisconnecting then .closing else .idle }
  | .destroying =>
    (s.conn.disconnect s.loop).map fun (conn, loop) =>
      { s with conn := conn, loop := loop, wasDown := true, pc := .destroyStored }
  | .destroyStored =>
    some { s with notices := s.notices ++ [.connectionCallback s.conn.connected], pc := .destroyTold }
  | .destroyTold =>
    (s.conn.removeChannel s.loop).map fun (conn, loop) =>
      { s with conn := conn, loop := loop, pc := .idle }

-- the next statement of the call that a thread is in
def advance (s : Race τ) (t : Thread τ) (contents : List UInt8) (w : WriteResult) : Option (Race τ) :=
  match s.callers t with
  | .idle => none
  | .sending message len =>
    let s := s.setCaller t .idle
    if t = .loop then
      (s.conn.sendInLoop .own s.loop contents w).map fun (conn, loop) =>
        { s with conn := conn, loop := loop }
    else
      some { s with loop := s.loop.queueInLoop false (.own (.sendInLoop message len)) }
  | .shuttingDown => some { s.setCaller t .shutDown with conn := s.conn.setState .kDisconnecting }
  | .shutDown =>
    let s := s.setCaller t .idle
    if t = .loop then
      some { s with conn := s.conn.shutdownInLoop }
    else
      some { s with loop := s.loop.queueInLoop false (.own .shutdownInLoop) }
  | .forceTest => some (s.setCaller t (if s.conn.state_ = .kDisconnecting then .forcing else .idle))
  | .forcing => some { s.setCaller t .forced with conn := s.conn.setState .kDisconnecting }
  | .forced =>
    some { s.setCaller t .idle with loop := s.loop.queueInLoop (t = .loop) .forceCloseInLoop }

-- the end of the batch destroys its functors
def ranBehind (s : Race τ) : Life.Label → List Task
  | .endFunctors => []
  | _ => s.ran

def removedBehind (s : Race τ) : Life.Label → Nat
  | .removeConnectionInLoop false => s.removed + 1
  | _ => s.removed

-- The channel is destroyed with its connection. A `handleEvent` that the loop calls on it later is a use after free,
-- which is left out: here it does nothing.
def lifeStep (s : Race τ) (a : Life.Label) : Option (Race τ) :=
  (s.toLife.next a).map fun life =>
    { s with
        toLife := if s.freed then { life with todo := [] } else life
        ran := s.ranBehind a
        removed := s.removedBehind a }

def act (s : Race τ) : Label τ → Option (Race τ)
  | .life a => s.lifeStep a
  | .callback n w => s.callback n w
  | .runFunctor message w => s.runFunctor message w
  | .destroyServer => { s with inMap := false }.startDestroy
  | .resume => s.resume
  | .endRemovals => some { s with removed := 0 }
  | .call t c => some (s.setCaller t (c.load s.conn))
  | .advance t contents w => s.advance t contents w
  | .share t => some { s with handles := t :: s.handles }
  | .drop t => some { s with handles := s.handles.erase t }

-- the last reference takes the connection with it
def release (s : Race τ) : Race τ :=
  { s with freed := s.freed || s.refs.isEmpty }

def next (s : Race τ) (a : Label τ) : Option (Race τ) :=
  (s.act a).map release

def system (τ : Type) [DecidableEq τ] : LTS (Race τ) (Label τ) :=
  .guarded Established enabled next


end Race

theorem disconnect_loop {φ : Type u} {c c' : TcpConnection} {l l' : EventLoop φ}
    (h : c.disconnect l = some (c', l'))
    : l'.pendingFunctors = l.pendingFunctors ∧ l'.functors = l.functors := by
  simp only [disconnect, Option.map_eq_some_iff, Prod.mk.injEq] at h
  obtain ⟨_, _, _, rfl⟩ := h
  exact ⟨rfl, rfl⟩

theorem removeChannel_loop {φ : Type u} {c c' : TcpConnection} {l l' : EventLoop φ}
    (h : c.removeChannel l = some (c', l'))
    : l'.pendingFunctors = l.pendingFunctors ∧ l'.functors = l.functors := by
  simp only [removeChannel, Option.map_eq_some_iff, Prod.mk.injEq] at h
  obtain ⟨_, _, _, rfl⟩ := h
  exact ⟨rfl, rfl⟩

/-
A handler or a call whose steps nothing interrupts is the function of the connection.
-/

theorem handleClose_eq {φ : Type u} (c : TcpConnection) (l : EventLoop φ)
    : c.handleClose l
        = (c.disconnect l).map fun (c, l) => (c, l, [.connectionCallback c.connected, .closeCallback]) := by
  simp only [handleClose, disconnect, Option.map_map]
  rfl

theorem connectDestroyed_eq {φ : Type u} (c : TcpConnection) (l : EventLoop φ)
    : c.connectDestroyed l
        = if c.state_ = .kConnected then
            (c.disconnect l).bind fun (c₁, l₁) =>
              (c₁.removeChannel l₁).map fun (c₂, l₂) => (c₂, l₂, [.connectionCallback c₁.connected])
          else
            (c.removeChannel l).map fun (c, l) => (c, l, []) := by
  unfold connectDestroyed disconnect removeChannel
  split
  . simp only [Option.bind_map, Option.map_map]
    rfl
  . simp only [Option.bind_some, Option.map_map]
    rfl

namespace Race

variable {τ : Type} {s : Race τ}

theorem resume_handleClose (hpc : s.pc = .closing)
    : ((s.resume.bind resume).bind resume)
        = (s.conn.handleClose s.loop).map fun r =>
            { s with toLife := s.toLife.told r, wasDown := true, pc := .idle } := by
  rw [handleClose_eq, resume, hpc]
  cases s.conn.disconnect s.loop with
  | none => rfl
  | some r => simp [resume, Life.told]

theorem resume_connectDestroyed
    : (if s.conn.state_ = .kConnected then s.startDestroy.bind resume |>.bind resume |>.bind resume
        else s.startDestroy)
        = (s.conn.connectDestroyed s.loop).map fun r =>
            { s with
                toLife := { s.toLife with destroyed := true }.told r
                wasDown := s.wasDown || s.conn.state_ = .kConnected
                pc := if s.conn.state_ = .kConnected then .idle else s.pc } := by
  rw [connectDestroyed_eq]
  split
  . next hstate =>
    simp only [startDestroy, if_pos hstate, Option.bind_some, resume]
    cases s.conn.disconnect s.loop with
    | none => rfl
    | some r =>
      obtain ⟨c, l⟩ := r
      cases hremove : c.removeChannel l <;> simp [resume, hremove, Life.told, hstate]
  . next hstate =>
    simp only [startDestroy, if_neg hstate]
    cases s.conn.removeChannel s.loop with
    | none => rfl
    | some r => simp [Life.told, hstate]

theorem resume_handleWrite {w : WriteResult} {todo : List Callback} (htodo : s.todo = .write :: todo)
    (n : Int)
    : ((s.callback n w).bind fun s => if s.pc = .drained then s.resume else some s)
        = (s.conn.handleWrite .own s.loop w).map fun (conn, loop) =>
            { s with todo := todo, conn := conn, loop := loop, pc := .idle } := by
  simp only [callback, htodo, handleWrite]
  cases s.conn.drain .own s.loop w with
  | none => rfl
  | some r =>
    obtain ⟨c, l, drained⟩ := r
    cases drained <;> simp [resume]

section

variable [DecidableEq τ] {t : Thread τ} {contents : List UInt8} {w : WriteResult}

theorem advance_shutdown (hcaller : s.callers t = .shuttingDown) (hstate : s.conn.state_ = .kConnected)
    : ((s.advance t contents w).bind fun s => s.advance t contents w)
        = some
            { s.setCaller t .idle with
              conn := (s.conn.shutdown .own (t = .loop) s.loop).1
              loop := (s.conn.shutdown .own (t = .loop) s.loop).2 } := by
  by_cases hloop : t = .loop
  . subst hloop
    simp [advance, hcaller, setCaller, shutdown, hstate]
  . simp [advance, hcaller, setCaller, shutdown, hstate, hloop]

theorem advance_forceClose (hcaller : s.callers t = .forcing)
    (hstate : s.conn.state_ = .kConnected ∨ s.conn.state_ = .kDisconnecting)
    : ((s.advance t contents w).bind fun s => s.advance t contents w)
        = some
            { s.setCaller t .idle with
              conn := (s.conn.forceClose id (t = .loop) s.loop).1
              loop := (s.conn.forceClose id (t = .loop) s.loop).2 } := by
  simp [advance, hcaller, setCaller, forceClose, hstate]

end

/-
What each of them can do.
-/

-- a handler that has closed nothing, and has queued callbacks of the user only
structure Mild (c : TcpConnection) (l : EventLoop Task) (c' : TcpConnection) (l' : EventLoop Task)
    (notices : List Notice) : Prop extends Quiet .own c l c' l' notices where
  queued : ∃ fs : List Functor, l'.pendingFunctors = l.pendingFunctors ++ fs.map .own
    ∧ ∀ f ∈ fs, f.isNotice = true

section

variable {c c' : TcpConnection} {l l' : EventLoop Task}

theorem Mild.of_eq {notices : List Notice} (hstate : c'.state_ = c.state_) (hchannel : c'.channel = c.channel)
    (hnotices : ∀ notice ∈ notices, notice = .messageCallback) : Mild c l c' l notices :=
  ⟨.of_eq hstate hchannel hnotices, [], by simp⟩

theorem mild_drain {w : WriteResult} {drained : Bool} (h : c.drain .own l w = some (c', l', drained))
    : Mild c l c' l' [] := by
  have hframe := drain_frame h
  obtain ⟨fs, hpending, hall⟩ := hframe.notices
  refine ⟨⟨unchanged_drain h, ?_, hframe.functors, ⟨fs, hpending⟩, by simp⟩, fs, hpending, hall⟩
  intro _ hwriting
  simp only [drain, hwriting, Bool.false_eq_true, if_false, Option.some.injEq, Prod.mk.injEq] at h
  obtain ⟨rfl, rfl, _⟩ := h
  exact ⟨rfl, rfl⟩

theorem mild_sendInLoop {message : List UInt8} {w : WriteResult}
    (h : c.sendInLoop .own l message w = some (c', l')) : Mild c l c' l' [] :=
  ⟨quiet_sendInLoop h, (sendInLoop_frame h).notices⟩

theorem mild_shutdownInLoop (c : TcpConnection) (l : EventLoop Task) : Mild c l c.shutdownInLoop l [] :=
  ⟨quiet_shutdownInLoop _ c l, [], by simp⟩

theorem mild_shutdownIfDisconnecting (c : TcpConnection) (l : EventLoop Task)
    : Mild c l c.shutdownIfDisconnecting l [] := by
  unfold shutdownIfDisconnecting
  split
  . exact mild_shutdownInLoop c l
  . exact .of_eq rfl rfl (by simp)

theorem mild_runTask {f : Functor} {message : List UInt8} {w : WriteResult} {notices : List Notice}
    (h : c.runTask id l message w (.own f) = some (c', l', notices)) : Mild c l c' l' notices := by
  cases f with
  | sendInLoop _ _ =>
    simp only [runTask, Option.map_eq_some_iff, Prod.mk.injEq] at h
    obtain ⟨_, hsend, rfl, rfl, rfl⟩ := h
    exact mild_sendInLoop hsend
  | shutdownInLoop =>
    simp only [runTask, Option.some.injEq, Prod.mk.injEq] at h
    obtain ⟨rfl, rfl, rfl⟩ := h
    exact mild_shutdownInLoop _ _
  | writeCompleteCallback | highWaterMarkCallback =>
    simp only [runTask, Option.some.injEq, Prod.mk.injEq] at h
    obtain ⟨rfl, rfl, rfl⟩ := h
    exact .of_eq rfl rfl (by simp)

end

theorem Mild.not_mem {c c' : TcpConnection} {l l' : EventLoop Task} {notices : List Notice}
    (h : Mild c l c' l' notices) (htasks : Task.connectEstablished ∉ l.functors ++ l.pendingFunctors)
    : Task.connectEstablished ∉ l'.functors ++ l'.pendingFunctors := by
  obtain ⟨fs, hpending, _⟩ := h.queued
  rw [h.functors, hpending]
  exact Life.tasks_of_pending htasks (fun _ hmem => hmem) (Life.not_mem_own fs)

-- the callback closes the connection
def closes (callback : Callback) (n : Int) : Bool :=
  callback = .close || callback = .read && n = 0

-- the loop thread is not on the way to close the connection
def LoopPc.isCalm : LoopPc → Bool
  | .idle | .userCallback | .drained => true
  | _ => false

variable {s' : Race τ}

theorem startDestroy_cases (h : s.startDestroy = some s')
    : s.conn.state_ = .kConnected ∧ s' = { s with destroyed := true, pc := .destroying }
        ∨ s.conn.state_ ≠ .kConnected ∧ ∃ conn loop, s.conn.removeChannel s.loop = some (conn, loop)
          ∧ s' = { s with destroyed := true, conn := conn, loop := loop } := by
  unfold startDestroy at h
  dsimp only at h
  split at h
  . next hstate =>
    simp only [Option.some.injEq] at h
    exact .inl ⟨hstate, h.symm⟩
  . next hstate =>
    simp only [Option.map_eq_some_iff] at h
    obtain ⟨⟨conn, loop⟩, hremove, rfl⟩ := h
    exact .inr ⟨hstate, conn, loop, hremove, rfl⟩

theorem callback_cases {n : Int} {w : WriteResult} (hpc : s.pc = .idle) (h : s.callback n w = some s')
    : ∃ callback todo, s.todo = callback :: todo
        ∧ (closes callback n = true ∧ s' = { s with todo := todo, pc := .closing }
          ∨ ∃ conn loop notices pc, Mild s.conn s.loop conn loop notices ∧ pc.isCalm = true
            ∧ s' = { s with todo := todo, conn := conn, loop := loop, notices := s.notices ++ notices, pc := pc }) := by
  unfold callback at h
  split at h
  . cases h
  . next callback todo htodo =>
    refine ⟨callback, todo, htodo, ?_⟩
    have hcalm : s.pc.isCalm = true := by
      rw [hpc]
      rfl
    cases callback with
    | read =>
      dsimp only at h
      split at h
      . simp only [Option.some.injEq] at h
        exact .inr ⟨_, _, [.messageCallback], .userCallback, .of_eq rfl rfl (by simp), rfl, h.symm⟩
      . split at h
        . next hzero =>
          simp only [Option.some.injEq] at h
          exact .inl ⟨by simp [closes, hzero], h.symm⟩
        . simp only [Option.some.injEq] at h
          refine .inr ⟨s.conn, s.loop, [], s.pc, .of_eq rfl rfl (by simp), hcalm, ?_⟩
          rw [← h, List.append_nil]
    | write =>
      simp only [Option.map_eq_some_iff] at h
      obtain ⟨⟨conn, loop, drained⟩, hdrain, rfl⟩ := h
      refine .inr ⟨conn, loop, [], if drained then .drained else .idle, mild_drain hdrain, ?_, ?_⟩
      . cases drained <;> rfl
      . rw [List.append_nil]
    | close =>
      simp only [Option.some.injEq] at h
      exact .inl ⟨rfl, h.symm⟩
    | error =>
      simp only [Option.some.injEq] at h
      refine .inr ⟨s.conn, s.loop, [], s.pc, .of_eq rfl rfl (by simp), hcalm, ?_⟩
      rw [← h, List.append_nil]

theorem runFunctor_cases {message : List UInt8} {w : WriteResult} (hopen : .connectEstablished ∉ s.queue)
    (h : s.runFunctor message w = some s')
    : ∃ task functors, s.loop.functors = task :: functors
        ∧ (task = .connectDestroyed ∧ (s.pop task functors).startDestroy = some s'
          ∨ task = .forceCloseInLoop
            ∧ s' = { s.pop task functors with
                      pc := if s.conn.state_ = .kConnected then .closing else .forceTest }
          ∨ (∃ f, task = .own f) ∧ ∃ conn loop notices pc,
            Mild s.conn (s.pop task functors).loop conn loop notices ∧ pc.isCalm = true
              ∧ s' = { s.pop task functors with
                        conn := conn, loop := loop, notices := s.notices ++ notices, pc := pc }) := by
  unfold runFunctor at h
  split at h
  . cases h
  . next task functors hfunctors =>
    refine ⟨task, functors, hfunctors, ?_⟩
    cases task with
    | connectEstablished =>
      exact absurd (List.mem_append_left _ (hfunctors ▸ List.mem_cons_self)) hopen
    | connectDestroyed => exact .inl ⟨rfl, h⟩
    | forceCloseInLoop =>
      simp only [Option.some.injEq] at h
      exact .inr (.inl ⟨rfl, h.symm⟩)
    | own f =>
      simp only [Option.map_eq_some_iff] at h
      obtain ⟨⟨conn, loop, notices⟩, hrun, rfl⟩ := h
      have hmild := mild_runTask hrun
      have hcount : notices.count .closeCallback = 0 := by
        apply List.count_eq_zero.mpr
        intro hmem
        cases hmild.notices _ hmem
      refine .inr (.inr ⟨⟨f, rfl⟩, conn, loop, notices,
        if (Task.own f).runsUserCode then .userCallback else .idle, hmild, ?_, ?_⟩)
      . split <;> rfl
      . simp only [Life.told, hcount, Nat.add_zero]
        rfl

-- a connection on descriptor 7 that was established in a handler
def accepted : Race Unit where
  toLife := Life.established
  pc := .userCallback
  callers _ := .idle
  handles := []
  ran := []
  removed := 0
  freed := false
  wasDown := false

theorem accepted_init : accepted.Established :=
  ⟨Life.established_init, rfl, fun _ => rfl, rfl, .inl rfl, rfl, rfl, rfl⟩

end Race

end TcpConnection

end MyMuduo
