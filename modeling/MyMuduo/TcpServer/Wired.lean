import MyMuduo.TcpServer.Frame
import MyMuduo.TcpConnection.Pairing

/-!
This module contains what holds in every run of the server, its destructor included: which loop a functor, a
reported event or a callback of a connection is on, and what distinguishes two connections.
-/

namespace MyMuduo

namespace TcpServer

open TcpConnection (Task Notice Functor)

/--
Reported events and callbacks stand on the loop only while it handles events, and the callbacks are those of one
`handleEvent`, whose connection is not reported a second time.
-/
structure ServerLoop.Handling (l : ServerLoop) : Prop where
  functors : l.phase ≠ .functors → l.loop.functors = []
  idle : l.phase ≠ .events → l.active = [] ∧ l.todo = []
  nodup : (l.active.map (·.1)).Nodup
  todo : ∃ i callbacks, l.todo = callbacks.map (fun callback => (i, callback))
    ∧ callbacks.Sublist [.close, .error, .read, .write] ∧ (.close ∈ callbacks → .read ∉ callbacks)
    ∧ (callbacks ≠ [] → ∀ report ∈ l.active, report.1 ≠ i)

theorem ServerLoop.Handling.head {i : Nat} {l : ServerLoop} (h : l.Handling) {callback : Callback}
    {todo : List (Nat × Callback)} (htodo : l.todo = (i, callback) :: todo)
    : ∃ callbacks : List Callback, todo = callbacks.map (fun callback => (i, callback))
        ∧ (callback = .close ∨ callback = .read → .close ∉ callbacks ∧ .read ∉ callbacks)
        ∧ l.active.any (·.1 = i) = false := by
  obtain ⟨j, callbacks, heq, hsublist, hapart, hreported⟩ := h.todo
  rw [htodo] at heq
  cases callbacks with
  | nil => cases heq
  | cons callback' callbacks =>
    simp only [List.map_cons, List.cons.injEq, Prod.mk.injEq] at heq
    obtain ⟨⟨rfl, rfl⟩, heq⟩ := heq
    refine ⟨callbacks, heq, TcpConnection.Life.not_mem_behind_close hsublist hapart, ?_⟩
    rw [List.any_eq_false]
    intro report hmem
    simpa using hreported (by simp) report hmem

namespace ServerLoops

structure Wired (s : ServerLoops) : Prop where
  ipPort_ : s.server.ipPort_.length ≤ 21
  nextConnId_ : s.server.nextConnId_ ≤ INT_MAX
  fresh : ∀ i x, s.conns i = some x → i < s.server.nextConnId_
  name : ∀ i x, s.conns i = some x → x.name = s.server.connName i
  addr : ∀ i x, s.conns i = some x → x.conn.channel.addr = i
  fds : ∀ i j x y, i ≠ j → s.conns i = some x → s.conns j = some y → .connectDestroyed ∉ x.log →
    .connectDestroyed ∉ y.log → x.conn.channel.fd ≠ y.conn.channel.fd
  map : ∀ name i, (name, i) ∈ s.server.connections_ → ∃ x, s.conns i = some x ∧ x.name = name
  conn : ∀ k i task, .conn i task ∈ queueOf (s.loops k).loop → ∃ x, s.conns i = some x ∧ x.loop_ = k
  removal : ∀ k i, .removeConnectionInLoop i ∈ queueOf (s.loops k).loop → k = 0 ∧ ∃ x, s.conns i = some x
  active : ∀ k report, report ∈ (s.loops k).active → ∃ x, s.conns report.1 = some x ∧ x.loop_ = k
  todo : ∀ k report, report ∈ (s.loops k).todo → ∃ x, s.conns report.1 = some x ∧ x.loop_ = k
  handling : ∀ k, (s.loops k).Handling

variable {s s' : ServerLoops} {i j k : Nat} {x y : Accepted}

theorem Started.wired (h : s.Started) : s.Wired := by
  obtain ⟨⟨listenAddr, nameArg, loops, writeComplete, hserver⟩, hconns, hloops, _, _⟩ := h
  have hqueue : ∀ k, queueOf (s.loops k).loop = [] := by
    intro k
    simp [queueOf, hloops k]
  constructor
  . rw [hserver]
    exact length_toIpPort_le listenAddr
  . simp [hserver, TcpServer.new, INT_MAX]
  . simp [hconns]
  . simp [hconns]
  . simp [hconns]
  . simp [hconns]
  . simp [hserver, TcpServer.new]
  . simp [hqueue]
  . simp [hqueue]
  . simp [hloops]
  . simp [hloops]
  . intro k
    obtain ⟨hfunctors, _, hactive, htodo⟩ := hloops k
    refine ⟨fun _ => hfunctors, fun _ => ⟨hactive, htodo⟩, by simp [hactive], 0, [], htodo, by simp, by simp, by simp⟩

theorem Wired.name_injective (h : s.Wired) (hx : s.conns i = some x) (hy : s.conns j = some y)
    (hname : x.name = y.name) : i = j := by
  have hi := h.fresh i x hx
  have hj := h.fresh j y hy
  have hmax := h.nextConnId_
  rw [h.name i x hx, h.name j y hy] at hname
  exact connName_injective h.ipPort_ (by omega) (by omega) hname

-- the record of a connection after a step that has acted on another one or on itself
theorem Acted.back (h : Acted i x s s') (hx : s.conns i = some x) (hy : s'.conns j = some y)
    : ∃ y₀, s.conns j = some y₀ ∧ y.name = y₀.name ∧ y.loop_ = y₀.loop_
        ∧ y.conn.channel.fd = y₀.conn.channel.fd ∧ y.conn.channel.addr = y₀.conn.channel.addr
        ∧ (.connectDestroyed ∈ y₀.log → .connectDestroyed ∈ y.log) := by
  by_cases heq : j = i
  . subst heq
    obtain ⟨x', hx', hsame⟩ := h.conn
    rw [hy, Option.some.injEq] at hx'
    subst hx'
    exact ⟨x, hx, hsame⟩
  . rw [h.conns j heq] at hy
    exact ⟨y, hy, rfl, rfl, rfl, rfl, id⟩

theorem Acted.forth (h : Acted i x s s') (hx : s.conns i = some x) (hy : s.conns j = some y)
    : ∃ y', s'.conns j = some y' ∧ y'.name = y.name ∧ y'.loop_ = y.loop_ := by
  by_cases heq : j = i
  . subst heq
    obtain ⟨x', hx', hname, hloop, _⟩ := h.conn
    rw [hx, Option.some.injEq] at hy
    subst hy
    exact ⟨x', hx', hname, hloop⟩
  . exact ⟨y, (h.conns j heq).trans hy, rfl, rfl⟩

theorem Acted.mem_connections (h : Acted i x s s') {entry : List Char × Nat}
    (hmem : entry ∈ s'.server.connections_) : entry ∈ s.server.connections_ := by
  obtain heq | heq := h.server
  . exact heq ▸ hmem
  . rw [heq] at hmem
    exact List.mem_of_mem_filter hmem

theorem Wired.acted (h : s.Wired) (hx : s.conns i = some x) (hacted : Acted i x s s') : s'.Wired := by
  have hserver : s'.server.ipPort_ = s.server.ipPort_ ∧ s'.server.nextConnId_ = s.server.nextConnId_
      ∧ ∀ j, s'.server.connName j = s.server.connName j := by
    obtain heq | heq := hacted.server <;> rw [heq] <;> exact ⟨rfl, rfl, fun _ => rfl⟩
  obtain ⟨hipPort, hnext, hconnName⟩ := hserver
  constructor
  . rw [hipPort]
    exact h.ipPort_
  . rw [hnext]
    exact h.nextConnId_
  . intro j y hy
    obtain ⟨y₀, hy₀, _⟩ := hacted.back hx hy
    rw [hnext]
    exact h.fresh j y₀ hy₀
  . intro j y hy
    obtain ⟨y₀, hy₀, hname, _⟩ := hacted.back hx hy
    rw [hname, hconnName]
    exact h.name j y₀ hy₀
  . intro j y hy
    obtain ⟨y₀, hy₀, _, _, _, haddr, _⟩ := hacted.back hx hy
    rw [haddr]
    exact h.addr j y₀ hy₀
  . intro j m y z hne hy hz hnotY hnotZ
    obtain ⟨y₀, hy₀, _, _, hfdY, _, hlogY⟩ := hacted.back hx hy
    obtain ⟨z₀, hz₀, _, _, hfdZ, _, hlogZ⟩ := hacted.back hx hz
    rw [hfdY, hfdZ]
    exact h.fds j m y₀ z₀ hne hy₀ hz₀ (fun hmem => hnotY (hlogY hmem)) (fun hmem => hnotZ (hlogZ hmem))
  . intro name j hmem
    obtain ⟨y, hy, hname⟩ := h.map name j (hacted.mem_connections hmem)
    obtain ⟨y', hy', hname', _⟩ := hacted.forth hx hy
    exact ⟨y', hy', hname'.trans hname⟩
  . intro k j task hmem
    obtain ⟨cbs, happended, hcbs⟩ := hacted.queued k
    rw [happended.queueOf, List.mem_append] at hmem
    obtain hmem | hmem := hmem
    . obtain ⟨y, hy, hloop⟩ := h.conn k j task hmem
      obtain ⟨y', hy', _, hloop'⟩ := hacted.forth hx hy
      exact ⟨y', hy', hloop'.trans hloop⟩
    . obtain ⟨⟨task', heq⟩, rfl⟩ | ⟨heq, _⟩ := hcbs _ hmem
      . simp only [ServerTask.conn.injEq] at heq
        obtain ⟨rfl, _⟩ := heq
        obtain ⟨x', hx', _, hloop, _⟩ := hacted.conn
        exact ⟨x', hx', hloop⟩
      . cases heq
  . intro k j hmem
    obtain ⟨cbs, happended, hcbs⟩ := hacted.queued k
    rw [happended.queueOf, List.mem_append] at hmem
    obtain hmem | hmem := hmem
    . obtain ⟨hk, y, hy⟩ := h.removal k j hmem
      obtain ⟨y', hy', _⟩ := hacted.forth hx hy
      exact ⟨hk, y', hy'⟩
    . obtain ⟨⟨task', heq⟩, _⟩ | ⟨heq, hk⟩ := hcbs _ hmem
      . cases heq
      . simp only [ServerTask.removeConnectionInLoop.injEq] at heq
        subst heq
        obtain ⟨x', hx', _⟩ := hacted.conn
        exact ⟨hk, x', hx'⟩
  . intro k report hmem
    rw [hacted.active] at hmem
    obtain ⟨y, hy, hloop⟩ := h.active k report hmem
    obtain ⟨y', hy', _, hloop'⟩ := hacted.forth hx hy
    exact ⟨y', hy', hloop'.trans hloop⟩
  . intro k report hmem
    rw [hacted.todo] at hmem
    obtain ⟨y, hy, hloop⟩ := h.todo k report hmem
    obtain ⟨y', hy', _, hloop'⟩ := hacted.forth hx hy
    exact ⟨y', hy', hloop'.trans hloop⟩
  . intro k
    obtain ⟨hfunctors, hidle, hnodup, htodo⟩ := h.handling k
    obtain ⟨cbs, happended, _⟩ := hacted.queued k
    refine ⟨?_, ?_, ?_, ?_⟩
    . rw [hacted.phase, happended.functors]
      exact hfunctors
    . rw [hacted.phase, hacted.active, hacted.todo]
      exact hidle
    . rw [hacted.active]
      exact hnodup
    . rw [hacted.todo, hacted.active]
      exact htodo

/-
Steps of one loop that call no function of a connection.
-/

theorem Wired.of_loop (h : s.Wired) {l : ServerLoop}
    (hqueue : ∀ cb ∈ queueOf l.loop, cb ∈ queueOf (s.loops k).loop)
    (hactive : ∀ report ∈ l.active, ∃ x, s.conns report.1 = some x ∧ x.loop_ = k)
    (htodo : ∀ report ∈ l.todo, ∃ x, s.conns report.1 = some x ∧ x.loop_ = k) (hhandling : l.Handling)
    : Wired { s with loops := Function.update s.loops k l } := by
  refine ⟨h.ipPort_, h.nextConnId_, h.fresh, h.name, h.addr, h.fds, h.map, ?_, ?_, ?_, ?_, ?_⟩
  all_goals
    intro m
    simp only [Function.update_apply]
    split
  . next heq =>
    subst heq
    exact fun j task hmem => h.conn m j task (hqueue _ hmem)
  . exact h.conn m
  . next heq =>
    subst heq
    exact fun j hmem => h.removal m j (hqueue _ hmem)
  . exact h.removal m
  . next heq =>
    subst heq
    exact hactive
  . exact h.active m
  . next heq =>
    subst heq
    exact htodo
  . exact h.todo m
  . exact hhandling
  . exact h.handling m

theorem Wired.popFunctor (h : s.Wired) {cb : ServerTask} {functors : List ServerTask}
    (hfunctors : (s.loops k).loop.functors = cb :: functors) : (s.setFunctors k functors).Wired := by
  obtain ⟨hfunctors', hidle, hnodup, htodo⟩ := h.handling k
  refine h.of_loop ?_ (h.active k) (h.todo k) ⟨?_, hidle, hnodup, htodo⟩
  . intro cb' hmem
    simp only [queueOf, hfunctors]
    exact List.mem_cons_of_mem _ hmem
  . intro hphase
    rw [hfunctors' hphase] at hfunctors
    cases hfunctors

theorem Wired.popTodo (h : s.Wired) {i : Nat} {callback : Callback} {todo : List (Nat × Callback)}
    (htodo : (s.loops k).todo = (i, callback) :: todo) : (s.setTodo k todo).Wired := by
  obtain ⟨hfunctors, hidle, hnodup, j, callbacks, heq, hsublist, hapart, hreported⟩ := h.handling k
  refine h.of_loop (fun _ hmem => hmem) (h.active k) ?_ ⟨hfunctors, ?_, hnodup, j, callbacks.tail, ?_, ?_, ?_, ?_⟩
  . intro report hmem
    apply h.todo k
    rw [htodo]
    exact List.mem_cons_of_mem _ hmem
  . intro hphase
    rw [(hidle hphase).2] at htodo
    cases htodo
  . rw [List.map_tail, ← heq, htodo]
    rfl
  . exact (List.tail_sublist _).trans hsublist
  . exact fun hclose hread => hapart (List.mem_of_mem_tail hclose) (List.mem_of_mem_tail hread)
  . intro _
    apply hreported
    rintro rfl
    rw [htodo] at heq
    cases heq

theorem Wired.poll (h : s.Wired) {reports : List (Nat × Events)} (hphase : (s.loops k).phase = .polling)
    (hreports : reports.all (s.reports k) = true) (hnodup : (reports.map (·.1)).Nodup)
    : Wired { s with loops := Function.update s.loops k { s.loops k with phase := .events, active := reports } } := by
  obtain ⟨hfunctors, hidle, _⟩ := h.handling k
  obtain ⟨_, htodo⟩ := hidle (by simp [hphase])
  refine h.of_loop (fun _ hmem => hmem) ?_ (h.todo k) ⟨?_, ?_, hnodup, 0, [], htodo, by simp, by simp, by simp⟩
  . intro report hmem
    have hreport := List.all_eq_true.mp hreports report hmem
    unfold ServerLoops.reports at hreport
    split at hreport
    . cases hreport
    . next x hx =>
      simp only [Bool.and_eq_true, decide_eq_true_eq] at hreport
      exact ⟨x, hx, hreport.1⟩
  . intro _
    exact hfunctors (by simp [hphase])
  . exact fun hne => absurd rfl hne

theorem Wired.handleEvent (h : s.Wired) (hnext : s.handleEvent k = some s') : s'.Wired := by
  unfold ServerLoops.handleEvent at hnext
  split at hnext
  . cases hnext
  . next i revents active hactive =>
    simp only [Option.map_eq_some_iff] at hnext
    obtain ⟨x, hx, rfl⟩ := hnext
    obtain ⟨hfunctors, hidle, hnodup, _⟩ := h.handling k
    obtain ⟨hsublist, hapart⟩ := TcpConnection.Life.order_handleEvent { x.conn.channel with revents := revents }
    rw [hactive, List.map_cons, List.nodup_cons] at hnodup
    refine h.of_loop (fun _ hmem => hmem) ?_ ?_ ⟨hfunctors, ?_, hnodup.2, i, _, rfl, hsublist, hapart, ?_⟩
    . intro report hmem
      apply h.active k
      rw [hactive]
      exact List.mem_cons_of_mem _ hmem
    . intro report hmem
      obtain ⟨callback, _, rfl⟩ := List.mem_map.mp hmem
      apply h.active k (i, revents)
      rw [hactive]
      exact List.mem_cons_self
    . intro hphase
      rw [(hidle hphase).1] at hactive
      cases hactive
    . intro _ report hmem heq
      exact hnodup.1 (List.mem_map.mpr ⟨report, hmem, heq⟩)

theorem swap_eq (s : ServerLoops) (k : Nat)
    : (s.setLoop k (s.loops k).loop.swapFunctors).setPhase k .functors
        = let l := { s.loops k with loop := (s.loops k).loop.swapFunctors, phase := .functors }
          { s with loops := Function.update s.loops k l } := by
  simp [setPhase, setLoop]

theorem Wired.swap (h : s.Wired) (hactive : (s.loops k).active = []) (htodo : (s.loops k).todo = [])
    : Wired ((s.setLoop k (s.loops k).loop.swapFunctors).setPhase k .functors) := by
  obtain ⟨_, _, hnodup, htodo'⟩ := h.handling k
  rw [swap_eq]
  refine h.of_loop ?_ (h.active k) (h.todo k) ⟨?_, fun _ => ⟨hactive, htodo⟩, hnodup, htodo'⟩
  . intro cb hmem
    simp only [queueOf, EventLoop.swapFunctors, List.append_nil] at hmem
    exact List.mem_append_right _ hmem
  . exact fun hne => absurd rfl hne

theorem Wired.endFunctors (h : s.Wired) (hphase : (s.loops k).phase = .functors)
    (hfunctors : (s.loops k).loop.functors = []) : Wired (s.setPhase k .polling) := by
  obtain ⟨_, hidle, hnodup, htodo⟩ := h.handling k
  exact h.of_loop (fun _ hmem => hmem) (h.active k) (h.todo k)
    ⟨fun _ => hfunctors, fun _ => hidle (by simp [hphase]), hnodup, htodo⟩

/-
Steps that call functions of a connection.
-/

theorem Wired.insertConnection (h : s.Wired) {sockfd : Fd} (highWaterMark : Bool)
    (hnext : s.server.nextConnId_ < INT_MAX) (hfree : s.isFree sockfd = true)
    : Wired (s.insertConnection (s.accepted sockfd highWaterMark)) := by
  have hforth : ∀ j y, s.conns j = some y →
      (s.insertConnection (s.accepted sockfd highWaterMark)).conns j = some y := by
    intro j y hy
    have hj := h.fresh j y hy
    simp [ServerLoops.insertConnection, hy, Nat.ne_of_lt hj]
  have hback : ∀ j y, (s.insertConnection (s.accepted sockfd highWaterMark)).conns j = some y →
      j = s.server.nextConnId_ ∧ y = s.accepted sockfd highWaterMark ∨ s.conns j = some y := by
    intro j y hy
    simp only [ServerLoops.insertConnection, conns_setConn] at hy
    split at hy
    . next heq =>
      simp only [Option.some.injEq] at hy
      exact .inl ⟨heq, hy.symm⟩
    . exact .inr hy
  have hholds : ∀ j y, s.conns j = some y → .connectDestroyed ∉ y.log → y.conn.channel.fd ≠ sockfd := by
    intro j y hy hnot
    have hj := List.all_eq_true.mp hfree j (List.mem_range.mpr (h.fresh j y hy))
    simpa [hy, hnot] using hj
  constructor
  . exact h.ipPort_
  . exact hnext
  . intro j y hy
    obtain ⟨rfl, _⟩ | hy := hback j y hy
    . exact Nat.lt_succ_self _
    . exact Nat.lt_succ_of_lt (h.fresh j y hy)
  . intro j y hy
    obtain ⟨rfl, rfl⟩ | hy := hback j y hy
    . rfl
    . exact h.name j y hy
  . intro j y hy
    obtain ⟨rfl, rfl⟩ | hy := hback j y hy
    . rfl
    . exact h.addr j y hy
  . intro j m y z hne hy hz hnotY hnotZ
    obtain ⟨rfl, rfl⟩ | hy := hback j y hy <;> obtain ⟨rfl, rfl⟩ | hz := hback m z hz
    . exact absurd rfl hne
    . exact (hholds m z hz hnotZ).symm
    . exact hholds j y hy hnotY
    . exact h.fds j m y z hne hy hz hnotY hnotZ
  . intro name j hmem
    obtain heq | hmem := List.mem_cons.mp hmem
    . simp only [Prod.mk.injEq] at heq
      obtain ⟨rfl, rfl⟩ := heq
      exact ⟨s.accepted sockfd highWaterMark, by simp [ServerLoops.insertConnection], rfl⟩
    . obtain ⟨y, hy, hname⟩ := h.map name j (List.mem_of_mem_filter hmem)
      exact ⟨y, hforth j y hy, hname⟩
  . intro k j task hmem
    obtain ⟨y, hy, hloop⟩ := h.conn k j task hmem
    exact ⟨y, hforth j y hy, hloop⟩
  . intro k j hmem
    obtain ⟨hk, y, hy⟩ := h.removal k j hmem
    exact ⟨hk, y, hforth j y hy⟩
  . intro k report hmem
    obtain ⟨y, hy, hloop⟩ := h.active k report hmem
    exact ⟨y, hforth _ y hy, hloop⟩
  . intro k report hmem
    obtain ⟨y, hy, hloop⟩ := h.todo k report hmem
    exact ⟨y, hforth _ y hy, hloop⟩
  . exact h.handling

theorem appended_runTask {c c' : TcpConnection} {l l' : EventLoop ServerTask} {message : List UInt8}
    {w : WriteResult} {task : Task} {notices : List Notice}
    (h : c.runTask (.conn i) l message w task = some (c', l', notices))
    : ∃ tasks : List Task, Appended l l' (tasks.map (.conn i)) := by
  obtain ⟨hfunctors, fs, hpending⟩ := TcpConnection.frame_runTask h
  exact ⟨fs.map .own, hfunctors, by rw [hpending, List.map_map]⟩

theorem acted_runTask {message : List UInt8} {w : WriteResult} {task : Task}
    {r : TcpConnection × EventLoop ServerTask × List Notice} (events : List LifeEvent)
    (h : x.conn.runTask (.conn i) (s.loops x.loop_).loop message w task = some r)
    : Acted i x s (s.finish i x events r) := by
  obtain ⟨c', l', notices⟩ := r
  obtain ⟨tasks, happended⟩ := appended_runTask h
  exact acted_finish (TcpConnection.through_runTask h).confined happended

theorem acted_runCallback {n : Int} {w : WriteResult} {callback : Callback}
    {r : TcpConnection × EventLoop ServerTask × List Notice} (events : List LifeEvent)
    (h : x.conn.runCallback (.conn i) (s.loops x.loop_).loop n w callback = some r)
    : Acted i x s (s.finish i x events r) := by
  obtain ⟨c', l', notices⟩ := r
  obtain ⟨hfunctors, fs, hpending⟩ := TcpConnection.frame_runCallback h
  have happended : Appended (s.loops x.loop_).loop l' ((fs.map Task.own).map (.conn i)) :=
    ⟨hfunctors, by rw [hpending, List.map_map]⟩
  exact acted_finish (TcpConnection.through_runCallback h).confined happended

-- what the calls of the user queue
theorem appended_send (bind : Task → ServerTask) {isInLoopThread : Bool} {message : Addr} {contents : List UInt8}
    {w : WriteResult} {c c' : TcpConnection} {l l' : EventLoop ServerTask}
    (h : c.send (fun f => bind (.own f)) isInLoopThread l message contents w = some (c', l'))
    : ∃ fs : List Functor, Appended l l' ((fs.map Task.own).map bind) := by
  have hquiet := TcpConnection.quiet_send h
  obtain ⟨fs, hpending⟩ := hquiet.pending
  exact ⟨fs, hquiet.functors, by rw [hpending, List.map_map, Function.comp_def]⟩

theorem appended_shutdown (bind : Task → ServerTask) {isInLoopThread : Bool} {c c' : TcpConnection}
    {l l' : EventLoop ServerTask} (h : c.shutdown (fun f => bind (.own f)) isInLoopThread l = (c', l'))
    : ∃ fs : List Functor, Appended l l' ((fs.map Task.own).map bind) := by
  obtain ⟨_, _, heq, _, _, hfunctors, ⟨fs, hpending⟩, _⟩ :=
    TcpConnection.shutdown_spec (fun f => bind (.own f)) isInLoopThread c l
  rw [h, Prod.mk.injEq] at heq
  obtain ⟨rfl, rfl⟩ := heq
  exact ⟨fs, hfunctors, by rw [hpending, List.map_map, Function.comp_def]⟩

theorem appended_forceClose (bind : Task → ServerTask) {isInLoopThread : Bool} {c c' : TcpConnection}
    {l l' : EventLoop ServerTask} (h : c.forceClose bind isInLoopThread l = (c', l'))
    : ∃ tasks : List Task, Appended l l' (tasks.map bind) ∧ ∀ task ∈ tasks, task = .forceCloseInLoop := by
  obtain ⟨_, _, heq, _, _, hfunctors, hopen, hclosed⟩ := TcpConnection.forceClose_spec bind isInLoopThread c l
  rw [h, Prod.mk.injEq] at heq
  obtain ⟨rfl, rfl⟩ := heq
  by_cases hstate : c.state_ = .kConnected ∨ c.state_ = .kDisconnecting
  . exact ⟨[.forceCloseInLoop], ⟨hfunctors, (hopen hstate).1⟩, by simp⟩
  . obtain ⟨rfl, rfl⟩ := hclosed hstate
    exact ⟨[], .of_eq rfl rfl, by simp⟩

theorem acted_send {isInLoopThread : Bool} {message : Addr} {contents : List UInt8} {w : WriteResult}
    {c' : TcpConnection} {l' : EventLoop ServerTask}
    (h : x.conn.send (fun f => .conn i (.own f)) isInLoopThread (s.loops x.loop_).loop message contents w
      = some (c', l')) : Acted i x s (s.put i x c' l') := by
  obtain ⟨fs, happended⟩ := appended_send (.conn i) h
  exact acted_call (TcpConnection.through_send h).confined happended

theorem acted_shutdown {isInLoopThread : Bool} {c' : TcpConnection} {l' : EventLoop ServerTask}
    (h : x.conn.shutdown (fun f => .conn i (.own f)) isInLoopThread (s.loops x.loop_).loop = (c', l'))
    : Acted i x s (s.put i x c' l') := by
  obtain ⟨fs, happended⟩ := appended_shutdown (.conn i) h
  obtain ⟨_, _, heq, hchannel, hpoller, _⟩ :=
    TcpConnection.shutdown_spec (fun f => ServerTask.conn i (.own f)) isInLoopThread x.conn (s.loops x.loop_).loop
  rw [h, Prod.mk.injEq] at heq
  obtain ⟨rfl, rfl⟩ := heq
  exact acted_call (TcpConnection.Through.of_eq hchannel hpoller).confined happended

theorem acted_forceClose {isInLoopThread : Bool} {c' : TcpConnection} {l' : EventLoop ServerTask}
    (h : x.conn.forceClose (.conn i) isInLoopThread (s.loops x.loop_).loop = (c', l'))
    : Acted i x s (s.put i x c' l') := by
  obtain ⟨tasks, happended, _⟩ := appended_forceClose (.conn i) h
  obtain ⟨_, _, heq, hchannel, hpoller, _⟩ :=
    TcpConnection.forceClose_spec (ServerTask.conn i) isInLoopThread x.conn (s.loops x.loop_).loop
  rw [h, Prod.mk.injEq] at heq
  obtain ⟨rfl, rfl⟩ := heq
  exact acted_call (TcpConnection.Through.of_eq hchannel hpoller).confined happended

theorem acted_destroyConnection (hx : s.conns i = some x) (hnext : s.destroyConnection i = some s')
    : Acted i x s s' := by
  simp only [destroyConnection, hx, Option.bind_some] at hnext
  have herased : { s with server := s.server.erase x.name }.conns i = some x := hx
  refine (acted_erase hx).trans herased ?_
  split at hnext
  . next hloop =>
    simp only [Option.map_eq_some_iff] at hnext
    obtain ⟨r, hdestroy, rfl⟩ := hnext
    rw [← hloop] at hdestroy
    have hrun : x.conn.runTask (.conn i) (s.loops x.loop_).loop [] (.accepted 0) .connectDestroyed = some r :=
      hdestroy
    exact acted_runTask _ hrun
  . simp only [Option.some.injEq] at hnext
    subst hnext
    exact acted_queueInLoop herased 0 (.inl ⟨⟨_, rfl⟩, rfl⟩)

theorem Wired.newConnection (h : s.Wired) {sockfd : Fd} {highWaterMark : Bool}
    (hmax : s.server.nextConnId_ < INT_MAX) (hfree : s.isFree sockfd = true)
    (hnext : s.newConnection sockfd highWaterMark = some s') : s'.Wired := by
  have hinserted := h.insertConnection highWaterMark hmax hfree
  have hconn : (s.insertConnection (s.accepted sockfd highWaterMark)).conns s.server.nextConnId_ =
      some (s.accepted sockfd highWaterMark) := by
    simp [ServerLoops.insertConnection]
  unfold ServerLoops.newConnection at hnext
  dsimp only at hnext
  split at hnext
  . simp only [Option.map_eq_some_iff] at hnext
    obtain ⟨r, hrun, rfl⟩ := hnext
    exact hinserted.acted hconn (acted_runTask _ hrun)
  . simp only [Option.some.injEq] at hnext
    subst hnext
    exact hinserted.acted hconn (acted_queueInLoop hconn 0 (.inl ⟨⟨_, rfl⟩, rfl⟩))

theorem Wired.runFunctor (h : s.Wired) {message : List UInt8} {w : WriteResult}
    (hnext : s.runFunctor k message w = some s') : s'.Wired := by
  unfold ServerLoops.runFunctor at hnext
  split at hnext
  . cases hnext
  . next cb functors hfunctors =>
    have hpopped := h.popFunctor hfunctors
    dsimp only at hnext
    split at hnext
    . next i =>
      simp only [Option.some.injEq] at hnext
      subst hnext
      obtain ⟨_, x, hx⟩ := h.removal k i (by simp [queueOf, hfunctors])
      exact hpopped.acted hx (acted_removeConnectionInLoop hx)
    . next i task =>
      simp only [Option.bind_eq_some_iff, Option.map_eq_some_iff] at hnext
      obtain ⟨x, hx, r, hrun, rfl⟩ := hnext
      exact hpopped.acted hx (acted_runTask _ hrun)

theorem Wired.callback (h : s.Wired) {n : Int} {w : WriteResult} (hnext : s.callback k n w = some s')
    : s'.Wired := by
  unfold ServerLoops.callback at hnext
  split at hnext
  . cases hnext
  . next i callback todo htodo =>
    simp only [Option.bind_eq_some_iff, Option.map_eq_some_iff] at hnext
    obtain ⟨x, hx, r, hrun, rfl⟩ := hnext
    exact (h.popTodo htodo).acted hx (acted_runCallback _ hrun)

theorem Wired.step {a : Label} (h : s.Wired) (hstep : system.step s a = some s') : s'.Wired := by
  obtain ⟨henabled, hnext⟩ := LTS.guarded_step.mp hstep
  cases a with
  | newConnection sockfd highWaterMark =>
    simp only [enabled, Bool.and_eq_true, decide_eq_true_eq] at henabled
    exact h.newConnection henabled.1.1.1.2 henabled.1.1.2 hnext
  | poll k reports =>
    simp only [next, Option.some.injEq] at hnext
    subst hnext
    simp only [enabled, Bool.and_eq_true, decide_eq_true_eq] at henabled
    exact h.poll henabled.1.1.2 henabled.1.2 henabled.2
  | handleEvent k => exact h.handleEvent hnext
  | callback k n w => exact h.callback hnext
  | swap k =>
    simp only [next, Option.some.injEq] at hnext
    subst hnext
    simp only [enabled, Bool.and_eq_true, List.isEmpty_iff] at henabled
    exact h.swap henabled.1.2 henabled.2
  | runFunctor k message w => exact h.runFunctor hnext
  | endFunctors k =>
    simp only [next, Option.some.injEq] at hnext
    subst hnext
    simp only [enabled, Bool.and_eq_true, decide_eq_true_eq, List.isEmpty_iff] at henabled
    exact h.endFunctors henabled.1.2 henabled.2
  | send i isInLoopThread message contents w =>
    simp only [next, Option.bind_eq_some_iff, Option.map_eq_some_iff] at hnext
    obtain ⟨x, hx, r, hsend, rfl⟩ := hnext
    exact h.acted hx (acted_send hsend)
  | shutdown i isInLoopThread =>
    simp only [next, Option.map_eq_some_iff] at hnext
    obtain ⟨x, hx, rfl⟩ := hnext
    exact h.acted hx (acted_shutdown rfl)
  | forceClose i isInLoopThread =>
    simp only [next, Option.map_eq_some_iff] at hnext
    obtain ⟨x, hx, rfl⟩ := hnext
    exact h.acted hx (acted_forceClose rfl)
  | destroyConnection i =>
    simp only [enabled, Bool.and_eq_true, Option.any_eq_true] at henabled
    obtain ⟨x, hx, _⟩ := henabled.2
    exact h.acted hx (acted_destroyConnection hx hnext)
  | destroy | endDestroy =>
    simp only [next, Option.some.injEq] at hnext
    subst hnext
    exact ⟨h.ipPort_, h.nextConnId_, h.fresh, h.name, h.addr, h.fds, h.map, h.conn, h.removal, h.active, h.todo,
      h.handling⟩

-- the destructor moves on only in its own steps, and until its end the server exists
structure Ongoing (s s' : ServerLoops) : Prop where
  teardown : s'.teardown = s.teardown
  late : s.teardown ≠ .destroyed → s'.late = s.late

theorem ongoing_useServer (s : ServerLoops) : Ongoing s s.useServer :=
  ⟨rfl, fun hne => by simp [useServer, hne]⟩

theorem Ongoing.trans {s₁ : ServerLoops} (h₁ : Ongoing s s₁) (h₂ : Ongoing s₁ s') : Ongoing s s' :=
  ⟨h₂.teardown.trans h₁.teardown, fun hne => (h₂.late (h₁.teardown ▸ hne)).trans (h₁.late hne)⟩

theorem ongoing_removeConnectionInLoop (s : ServerLoops) (i : Nat) : Ongoing s (s.removeConnectionInLoop i) := by
  unfold removeConnectionInLoop
  split
  . exact ⟨rfl, fun _ => rfl⟩
  . exact (ongoing_useServer s).trans ⟨rfl, fun _ => rfl⟩

theorem ongoing_finish (s : ServerLoops) (i : Nat) (x : Accepted) (events : List LifeEvent)
    (r : TcpConnection × EventLoop ServerTask × List Notice) : Ongoing s (s.finish i x events r) := by
  unfold finish
  split
  . have hput : Ongoing s (s.put i { x with log := x.log ++ events ++ [.handleClose] } r.1 r.2.1) :=
      ⟨rfl, fun _ => rfl⟩
    apply hput.trans
    unfold removeConnection
    split
    . exact (ongoing_useServer _).trans (ongoing_removeConnectionInLoop _ i)
    . exact (ongoing_useServer _).trans ⟨rfl, fun _ => rfl⟩
  . exact ⟨rfl, fun _ => rfl⟩

theorem ongoing_next {a : Label} (hnext : s.next a = some s') : Ongoing s s' ∨ a = .destroy ∨ a = .endDestroy := by
  cases a with
  | newConnection sockfd highWaterMark =>
    simp only [next, ServerLoops.newConnection] at hnext
    have hinserted : Ongoing s (s.insertConnection (s.accepted sockfd highWaterMark)) := ⟨rfl, fun _ => rfl⟩
    split at hnext
    . simp only [Option.map_eq_some_iff] at hnext
      obtain ⟨r, _, rfl⟩ := hnext
      exact .inl (hinserted.trans (ongoing_finish ..))
    . simp only [Option.some.injEq] at hnext
      subst hnext
      exact .inl ⟨rfl, fun _ => rfl⟩
  | handleEvent k =>
    simp only [next, ServerLoops.handleEvent] at hnext
    split at hnext
    . cases hnext
    . simp only [Option.map_eq_some_iff] at hnext
      obtain ⟨_, _, rfl⟩ := hnext
      exact .inl ⟨rfl, fun _ => rfl⟩
  | callback k n w =>
    simp only [next, ServerLoops.callback] at hnext
    split at hnext
    . cases hnext
    . next todo _ =>
      simp only [Option.bind_eq_some_iff, Option.map_eq_some_iff] at hnext
      obtain ⟨_, _, r, _, rfl⟩ := hnext
      have hpopped : Ongoing s (s.setTodo k todo) := ⟨rfl, fun _ => rfl⟩
      exact .inl (hpopped.trans (ongoing_finish ..))
  | runFunctor k message w =>
    simp only [next, ServerLoops.runFunctor] at hnext
    split at hnext
    . cases hnext
    . next functors _ =>
      have hpopped : Ongoing s (s.setFunctors k functors) := ⟨rfl, fun _ => rfl⟩
      split at hnext
      . simp only [Option.some.injEq] at hnext
        subst hnext
        exact .inl (hpopped.trans (ongoing_removeConnectionInLoop ..))
      . simp only [Option.bind_eq_some_iff, Option.map_eq_some_iff] at hnext
        obtain ⟨_, _, r, _, rfl⟩ := hnext
        exact .inl (hpopped.trans (ongoing_finish ..))
  | send i isInLoopThread message contents w =>
    simp only [next, Option.bind_eq_some_iff, Option.map_eq_some_iff] at hnext
    obtain ⟨_, _, _, _, rfl⟩ := hnext
    exact .inl ⟨rfl, fun _ => rfl⟩
  | shutdown i isInLoopThread | forceClose i isInLoopThread =>
    simp only [next, Option.map_eq_some_iff] at hnext
    obtain ⟨_, _, rfl⟩ := hnext
    exact .inl ⟨rfl, fun _ => rfl⟩
  | destroyConnection i =>
    simp only [next, ServerLoops.destroyConnection, Option.bind_eq_some_iff] at hnext
    obtain ⟨x, _, hnext⟩ := hnext
    split at hnext
    . simp only [Option.map_eq_some_iff] at hnext
      obtain ⟨r, _, rfl⟩ := hnext
      have herased : Ongoing s { s with server := s.server.erase x.name } := ⟨rfl, fun _ => rfl⟩
      exact .inl (herased.trans (ongoing_finish ..))
    . simp only [Option.some.injEq] at hnext
      subst hnext
      exact .inl ⟨rfl, fun _ => rfl⟩
  | poll | swap | endFunctors =>
    simp only [next, Option.some.injEq] at hnext
    subst hnext
    exact .inl ⟨rfl, fun _ => rfl⟩
  | destroy => exact .inr (.inl rfl)
  | endDestroy => exact .inr (.inr rfl)

theorem running_of_step {a : Label} (hstep : system.step s a = some s') (hrunning : s'.teardown = .running)
    : s.teardown = .running := by
  obtain ⟨_, hnext⟩ := LTS.guarded_step.mp hstep
  obtain hongoing | rfl | rfl := ongoing_next hnext
  . exact hongoing.teardown ▸ hrunning
  all_goals
    simp only [next, Option.some.injEq] at hnext
    subst hnext
    cases hrunning

theorem wired_reachable (h : system.Reachable s) : s.Wired := by
  apply h.invariant Wired
  . exact fun _ hinit => hinit.wired
  . exact fun _ _ _ hwired hstep => hwired.step hstep

end ServerLoops

end TcpServer

end MyMuduo
