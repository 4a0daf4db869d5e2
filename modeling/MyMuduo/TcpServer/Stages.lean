import MyMuduo.TcpServer.Loops

/-!
This module contains the stages in the life of an accepted connection: what its log, its state and its channel
are in each of them, and what is waiting for it.
-/

namespace MyMuduo

namespace TcpServer

open TcpConnection (Task Notice Functor Quiet)

def ServerTask.task? (i : Nat) : ServerTask → Option Task
  | .conn j task => if j = i then some task else none
  | .removeConnectionInLoop _ => none

-- the functors that wait, in the order in which they will run
def queueOf (l : EventLoop ServerTask) : List ServerTask :=
  l.functors ++ l.pendingFunctors

def tasksOf (i : Nat) (l : EventLoop ServerTask) : List Task :=
  (queueOf l).filterMap (ServerTask.task? i)

def removalsOf (i : Nat) (l : EventLoop ServerTask) : Nat :=
  (queueOf l).count (.removeConnectionInLoop i)

def todoOf (i : Nat) (todo : List (Nat × Callback)) : List Callback :=
  todo.filterMap fun report => if report.1 = i then some report.2 else none

/--
What the loops and the server know of a connection: its entry in the interest set of its loop, the functors that
wait for it, the calls of `removeConnectionInLoop` that wait, whether epoll has reported it, the callbacks of
its `handleEvent` in progress, and whether it is in `connections_`.
-/
@[ext]
structure View where
  entry : Option (Events × Addr)
  tasks : List Task
  removals : Nat
  reported : Bool
  todo : List Callback
  inMap : Bool

def ServerLoops.view (s : ServerLoops) (i : Nat) (x : Accepted) : View where
  entry := (s.loops x.loop_).loop.poller.epoll x.conn.channel.fd
  tasks := tasksOf i (s.loops x.loop_).loop
  removals := removalsOf i (s.loops 0).loop
  reported := (s.loops x.loop_).active.any (·.1 = i)
  todo := todoOf i (s.loops x.loop_).todo
  inMap := s.server.connections_.contains (x.name, i)

-- `events` has happened to the connection since `connectEstablished`, besides the events of its channel
def Accepted.Lived (x : Accepted) (events : List LifeEvent) : Prop :=
  ∃ rest, x.log = .newConnection :: .connectEstablished :: rest ∧ rest.filter (· ≠ .channelEvent) = events

/--
The connection is closed, and nothing that is reported closes it again.
-/
structure Shut (x : Accepted) (v : View) : Prop where
  state_ : x.conn.state_ = .kDisconnected
  events : x.conn.channel.events = Channel.kNoneEvent
  reported : v.reported = false
  close : .close ∉ v.todo
  read : .read ∉ v.todo
  established : v.tasks.count .connectEstablished = 0

/--
How far the connection with the number `i` has come.
-/
inductive Stage (i : Nat) (x : Accepted) (v : View) : Prop where
  | accepted (log : x.log = [.newConnection]) (state_ : x.conn.state_ = .kConnecting)
    (index : x.conn.channel.index = .kNew) (events : x.conn.channel.events = 0) (entry : v.entry = none)
    (tasks : v.tasks = [.connectEstablished]) (removals : v.removals = 0) (reported : v.reported = false)
    (todo : v.todo = []) (inMap : v.inMap = true)
  | established (lived : x.Lived []) (state_ : x.conn.state_ = .kConnected ∨ x.conn.state_ = .kDisconnecting)
    (synced : v.entry.isSome ↔ x.conn.channel.index = .kAdded) (registered : x.conn.channel.Registered)
    (waiting : v.tasks.count .connectEstablished = 0) (destroyed : v.tasks.count .connectDestroyed = 0)
    (removals : v.removals = 0) (inMap : v.inMap = true)
  | closed (lived : x.Lived [.handleClose]) (shut : Shut x v) (entry : v.entry = none)
    (index : x.conn.channel.index ≠ .kAdded) (destroyed : v.tasks.count .connectDestroyed = 0)
    (removals : v.removals = 1) (inMap : v.inMap = true)
  | removed (lived : x.Lived [.handleClose, .removeConnectionInLoop]) (shut : Shut x v) (entry : v.entry = none)
    (index : x.conn.channel.index ≠ .kAdded) (destroyed : v.tasks.count .connectDestroyed = 1)
    (removals : v.removals = 0) (inMap : v.inMap = false)
  | destroyed (lived : x.Lived [.handleClose, .removeConnectionInLoop, .connectDestroyed]) (shut : Shut x v)
    (entry : ∀ events, v.entry ≠ some (events, i)) (destroyed : v.tasks.count .connectDestroyed = 0)
    (removals : v.removals = 0) (inMap : v.inMap = false)

variable {i : Nat} {x x' : Accepted} {v v' : View}

theorem Accepted.Lived.note {events : List LifeEvent} (h : x.Lived events) {more : List LifeEvent}
    (hlog : x'.log = x.log ++ more) : x'.Lived (events ++ more.filter (· ≠ .channelEvent)) := by
  obtain ⟨rest, hrest, rfl⟩ := h
  refine ⟨rest ++ more, ?_, by simp⟩
  rw [hlog, hrest]
  rfl

theorem Accepted.Lived.happened {events : List LifeEvent} (h : x.Lived events) {event : LifeEvent}
    (hne : event ≠ .channelEvent) (hlog : x'.log = x.log ++ [event]) : x'.Lived (events ++ [event]) := by
  have hnoted := h.note hlog
  rwa [List.filter_eq_self.mpr (by simpa using hne)] at hnoted

theorem Accepted.Lived.mem {events : List LifeEvent} (h : x.Lived events) (event : LifeEvent)
    (hevent : event ≠ .channelEvent)
    : event ∈ x.log ↔ event = .newConnection ∨ event = .connectEstablished ∨ event ∈ events := by
  obtain ⟨rest, hrest, rfl⟩ := h
  simp [hrest, hevent]

theorem Stage.of_entry (h : Stage i x v) (hmem : .connectDestroyed ∈ x.log) {entry : Option (Events × Addr)}
    (hentry : ∀ events, entry ≠ some (events, i)) : Stage i x { v with entry := entry } := by
  cases h with
  | accepted log => simp [log] at hmem
  | established lived | closed lived | removed lived => simp [lived.mem] at hmem
  | destroyed lived shut _ destroyed removals inMap =>
    exact .destroyed lived ⟨shut.state_, shut.events, shut.reported, shut.close, shut.read, shut.established⟩ hentry
      destroyed removals inMap

theorem Stage.shut_of_destroyed (h : Stage i x v) (hmem : .connectDestroyed ∈ x.log) : Shut x v := by
  cases h with
  | accepted log => simp [log] at hmem
  | established lived | closed lived | removed lived => simp [lived.mem] at hmem
  | destroyed _ shut => exact shut

/-
What the stages say about the log.
-/

theorem Accepted.Lived.filter {events : List LifeEvent} (h : x.Lived events)
    : x.log.filter (· ≠ .channelEvent) = .newConnection :: .connectEstablished :: events := by
  obtain ⟨rest, hrest, rfl⟩ := h
  simp [hrest]

theorem Stage.order (h : Stage i x v)
    : x.log.filter (· ≠ .channelEvent)
        <+: [.newConnection, .connectEstablished, .handleClose, .removeConnectionInLoop, .connectDestroyed] := by
  cases h with
  | accepted log =>
    rw [log]
    exact ⟨[.connectEstablished, .handleClose, .removeConnectionInLoop, .connectDestroyed], rfl⟩
  | established lived =>
    rw [lived.filter]
    exact ⟨[.handleClose, .removeConnectionInLoop, .connectDestroyed], rfl⟩
  | closed lived =>
    rw [lived.filter]
    exact ⟨[.removeConnectionInLoop, .connectDestroyed], rfl⟩
  | removed lived =>
    rw [lived.filter]
    exact ⟨[.connectDestroyed], rfl⟩
  | destroyed lived => exact ⟨[], by rw [lived.filter, List.append_nil]⟩

theorem Accepted.Lived.count {events : List LifeEvent} (h : x.Lived events) {event : LifeEvent}
    (hne : event ≠ .channelEvent)
    : x.log.count event = (LifeEvent.newConnection :: .connectEstablished :: events).count event := by
  rw [← h.filter, List.count_filter]
  simpa using hne

theorem Stage.count (h : Stage i x v)
    : x.log.count .connectEstablished + v.tasks.count .connectEstablished = 1 := by
  cases h with
  | accepted log _ _ _ _ tasks =>
    rw [log, tasks]
    rfl
  | established lived _ _ _ waiting => simp [lived.count, waiting]
  | closed lived shut | removed lived shut | destroyed lived shut => simp [lived.count, shut.established]

theorem Stage.channelEvent (h : Stage i x v) (earlier later : List LifeEvent)
    (hlog : x.log = earlier ++ .channelEvent :: later) : .connectEstablished ∈ earlier := by
  have hlived : ∀ {events}, x.Lived events → .connectEstablished ∈ earlier := by
    rintro events ⟨rest, hrest, _⟩
    rw [hrest] at hlog
    match earlier with
    | [] => simp at hlog
    | [_] => simp at hlog
    | _ :: event :: _ =>
      simp only [List.cons_append, List.cons.injEq] at hlog
      simp [← hlog.2.1]
  cases h with
  | accepted log =>
    rw [log] at hlog
    match earlier with
    | [] => simp at hlog
    | _ :: _ => simp at hlog
  | established lived | closed lived | removed lived | destroyed lived => exact hlived lived

theorem Stage.inMap_iff (h : Stage i x v)
    : v.inMap = true ↔ .newConnection ∈ x.log ∧ .removeConnectionInLoop ∉ x.log := by
  cases h with
  | accepted log _ _ _ _ _ _ _ _ inMap => simp [log, inMap]
  | established lived _ _ _ _ _ _ inMap | closed lived _ _ _ _ _ inMap | removed lived _ _ _ _ _ inMap
  | destroyed lived _ _ _ _ inMap => simp [lived.mem, inMap]

-- epoll reports the channel only while the connection is open
theorem Stage.of_reported (h : Stage i x v) {reported : Bool}
    (hreported : reported = true → ∃ events, v.entry = some (events, i))
    : Stage i x { v with reported := reported } := by
  have hnot : (∀ events, v.entry ≠ some (events, i)) → reported = false := by
    intro hentry
    by_contra hne
    obtain ⟨events, heq⟩ := hreported (by simpa using hne)
    exact hentry events heq
  have hshut : reported = false → Shut x v → Shut x { v with reported := reported } :=
    fun heq shut => ⟨shut.state_, shut.events, heq, shut.close, shut.read, shut.established⟩
  cases h with
  | accepted log state_ index events entry tasks removals _ todo inMap =>
    exact .accepted log state_ index events entry tasks removals (hnot (by simp [entry])) todo inMap
  | established lived state_ synced registered waiting destroyed removals inMap =>
    exact .established lived state_ synced registered waiting destroyed removals inMap
  | closed lived shut entry index destroyed removals inMap =>
    exact .closed lived (hshut (hnot (by simp [entry])) shut) entry index destroyed removals inMap
  | removed lived shut entry index destroyed removals inMap =>
    exact .removed lived (hshut (hnot (by simp [entry])) shut) entry index destroyed removals inMap
  | destroyed lived shut entry destroyed removals inMap =>
    exact .destroyed lived (hshut (hnot entry) shut) entry destroyed removals inMap

theorem Stage.of_handled (h : Stage i x v) (hreported : v.reported = true) (reported : Bool) (todo : List Callback)
    : Stage i x { v with reported := reported, todo := todo } := by
  cases h with
  | accepted _ _ _ _ _ _ _ notReported => simp [notReported] at hreported
  | established lived state_ synced registered waiting destroyed removals inMap =>
    exact .established lived state_ synced registered waiting destroyed removals inMap
  | closed _ shut | removed _ shut | destroyed _ shut => simp [shut.reported] at hreported

theorem Stage.of_kConnecting (h : Stage i x v) (hstate : x.conn.state_ = .kConnecting)
    : v.tasks = [.connectEstablished] ∧ v.todo = [] := by
  cases h with
  | accepted _ _ _ _ _ tasks _ _ todo => exact ⟨tasks, todo⟩
  | established _ state_ => simp [hstate] at state_
  | closed _ shut | removed _ shut | destroyed _ shut => simp [shut.state_] at hstate

-- a callback that closes the connection
theorem Stage.up_of_todo (h : Stage i x v) (htodo : .close ∈ v.todo ∨ .read ∈ v.todo)
    : x.conn.state_ = .kConnected ∨ x.conn.state_ = .kDisconnecting := by
  cases h with
  | accepted _ _ _ _ _ _ _ _ empty => simp [empty] at htodo
  | established _ state_ => exact state_
  | closed _ shut | removed _ shut | destroyed _ shut => simp [shut.close, shut.read] at htodo

theorem Stage.of_up {v : View} (hstage : Stage i x v)
    (hup : x.conn.state_ = .kConnected ∨ x.conn.state_ = .kDisconnecting)
    : x.Lived [] ∧ (v.entry.isSome ↔ x.conn.channel.index = .kAdded) ∧ x.conn.channel.Registered
        ∧ v.tasks.count .connectEstablished = 0 ∧ v.tasks.count .connectDestroyed = 0 ∧ v.removals = 0
        ∧ v.inMap = true := by
  cases hstage with
  | accepted _ state_ => simp [state_] at hup
  | established lived _ synced registered waiting destroyed removals inMap =>
    exact ⟨lived, synced, registered, waiting, destroyed, removals, inMap⟩
  | closed _ shut | removed _ shut | destroyed _ shut => simp [shut.state_] at hup

/--
A change of what waits and what is reported that leaves the stage.
-/
structure View.Same (v v' : View) : Prop where
  waiting : v'.tasks.count .connectEstablished = v.tasks.count .connectEstablished
  destroyed : v'.tasks.count .connectDestroyed = v.tasks.count .connectDestroyed
  removals : v'.removals = v.removals
  reported : v.reported = false → v'.reported = false
  todo : ∀ callback ∈ v'.todo, callback ∈ v.todo
  inMap : v'.inMap = v.inMap

theorem View.Same.refl (v : View) : View.Same v v :=
  ⟨rfl, rfl, rfl, id, fun _ hmem => hmem, rfl⟩

theorem Shut.same (h : Shut x v) (hsame : View.Same v v') (hstate : x'.conn.state_ = x.conn.state_)
    (hevents : x'.conn.channel.events = x.conn.channel.events) : Shut x' v' :=
  ⟨hstate.trans h.state_, hevents.trans h.events, hsame.reported h.reported, fun hmem => h.close (hsame.todo _ hmem),
    fun hmem => h.read (hsame.todo _ hmem), hsame.waiting.trans h.established⟩

theorem Stage.of_same (h : Stage i x v) (hopen : x.conn.state_ ≠ .kConnecting) (hsame : View.Same v v')
    (hentry : v'.entry = v.entry) : Stage i x v' := by
  cases h with
  | accepted _ state_ => exact absurd state_ hopen
  | established lived state_ synced registered waiting destroyed removals inMap =>
    exact .established lived state_ (hentry ▸ synced) registered (hsame.waiting.trans waiting)
      (hsame.destroyed.trans destroyed) (hsame.removals.trans removals) (hsame.inMap.trans inMap)
  | closed lived shut entry index destroyed removals inMap =>
    exact .closed lived (shut.same hsame rfl rfl) (hentry.trans entry) index (hsame.destroyed.trans destroyed)
      (hsame.removals.trans removals) (hsame.inMap.trans inMap)
  | removed lived shut entry index destroyed removals inMap =>
    exact .removed lived (shut.same hsame rfl rfl) (hentry.trans entry) index (hsame.destroyed.trans destroyed)
      (hsame.removals.trans removals) (hsame.inMap.trans inMap)
  | destroyed lived shut entry destroyed removals inMap =>
    exact .destroyed lived (shut.same hsame rfl rfl) (hentry ▸ entry) (hsame.destroyed.trans destroyed)
      (hsame.removals.trans removals) (hsame.inMap.trans inMap)

theorem Stage.popTodo (h : Stage i x v) {callback : Callback} {todo : List Callback}
    (htodo : v.todo = callback :: todo) : Stage i x { v with todo := todo } := by
  apply h.of_same
  . intro hstate
    rw [(h.of_kConnecting hstate).2] at htodo
    cases htodo
  . refine ⟨rfl, rfl, rfl, id, ?_, rfl⟩
    intro callback' hmem
    rw [htodo]
    exact List.mem_cons_of_mem _ hmem
  . rfl

theorem Stage.popTask (h : Stage i x v) {task : Task} {tasks : List Task} (htasks : v.tasks = task :: tasks)
    (hopen : task ≠ .connectEstablished) (hdestroy : task ≠ .connectDestroyed)
    : Stage i x { v with tasks := tasks } := by
  apply h.of_same
  . intro hstate
    rw [(h.of_kConnecting hstate).1, List.cons.injEq] at htasks
    exact hopen htasks.1.symm
  . refine ⟨?_, ?_, rfl, id, fun _ hmem => hmem, rfl⟩
    . rw [htasks, List.count_cons_of_ne hopen]
    . rw [htasks, List.count_cons_of_ne hdestroy]
  . rfl

/--
A handler that neither opens nor closes the connection leaves it where it is.
-/
theorem Stage.of_quiet {bind : Functor → ServerTask} {l l' : EventLoop ServerTask} {notices : List Notice}
    {events : List LifeEvent} (h : Stage i x v) (hopen : x.conn.state_ ≠ .kConnecting)
    (hquiet : Quiet bind x.conn l x'.conn l' notices) (hlog : x'.log = x.log ++ events)
    (hevents : events.filter (· ≠ .channelEvent) = []) (hentry : v.entry = l.poller.epoll x.conn.channel.fd)
    (hentry' : v'.entry = l'.poller.epoll x.conn.channel.fd) (hsame : View.Same v v') : Stage i x' v' := by
  have hlived : ∀ {past}, x.Lived past → x'.Lived past := by
    intro past hpast
    have hpast' := hpast.note hlog
    rwa [hevents, List.append_nil] at hpast'
  have hshut : Shut x v → Shut x' v' ∧ v'.entry = v.entry ∧ x'.conn.channel.index = x.conn.channel.index := by
    intro hshut
    obtain ⟨hchannel, hpoller⟩ :=
      hquiet.closed hshut.state_ (TcpConnection.Life.not_isWriting_of_none hshut.events)
    refine ⟨hshut.same hsame hquiet.state_ (by rw [hchannel]), ?_, by rw [hchannel]⟩
    rw [hentry', hentry, hpoller]
  cases h with
  | accepted _ state_ => exact absurd state_ hopen
  | established lived state_ synced registered waiting destroyed removals inMap =>
    refine .established (hlived lived) ?_ ?_ (hquiet.channel.registered registered)
      (hsame.waiting.trans waiting) (hsame.destroyed.trans destroyed) (hsame.removals.trans removals)
      (hsame.inMap.trans inMap)
    . rw [hquiet.state_]
      exact state_
    . rw [hentry] at synced
      have hsynced := hquiet.channel.synced synced
      unfold Channel.Synced at hsynced
      rw [hquiet.channel.fd] at hsynced
      rw [hentry']
      exact hsynced
  | closed lived shut entry index destroyed removals inMap =>
    obtain ⟨hshut', hentrySame, hindex⟩ := hshut shut
    exact .closed (hlived lived) hshut' (hentrySame.trans entry) (hindex ▸ index) (hsame.destroyed.trans destroyed)
      (hsame.removals.trans removals) (hsame.inMap.trans inMap)
  | removed lived shut entry index destroyed removals inMap =>
    obtain ⟨hshut', hentrySame, hindex⟩ := hshut shut
    exact .removed (hlived lived) hshut' (hentrySame.trans entry) (hindex ▸ index) (hsame.destroyed.trans destroyed)
      (hsame.removals.trans removals) (hsame.inMap.trans inMap)
  | destroyed lived shut entry destroyed removals inMap =>
    obtain ⟨hshut', hentrySame, _⟩ := hshut shut
    exact .destroyed (hlived lived) hshut' (hentrySame ▸ entry) (hsame.destroyed.trans destroyed)
      (hsame.removals.trans removals) (hsame.inMap.trans inMap)

end TcpServer

end MyMuduo
