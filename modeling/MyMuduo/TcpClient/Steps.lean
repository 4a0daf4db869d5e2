import MyMuduo.TcpClient.Runs

/-!
This module contains the steps of a client, each with what it does, and that every step keeps the invariant.
-/

namespace MyMuduo

namespace TcpClient

open TcpConnection (Task)

namespace ClientLoop

variable {s s' : ClientLoop} {i j : Nat} {x x' y : Made}

/-
The steps of `newConnection` and of the close, and those that take the next event or functor.
-/

theorem newConnection_cases (hnext : s.newConnection = some s')
    : ∃ sockfd, s.handler = some (.newConnection sockfd)
        ∧ s' = { s.setConn s.client.nextConnId_ (s.made sockfd) with
            client := { s.client with
              nextConnId_ := s.client.nextConnId_ + 1
              connection_ := some s.client.nextConnId_ }
            handler := some (.connectEstablished s.client.nextConnId_) } := by
  unfold ClientLoop.newConnection at hnext
  split at hnext
  . next sockfd hhandler =>
    simp only [Option.some.injEq] at hnext
    exact ⟨sockfd, hhandler, hnext.symm⟩
  . cases hnext

theorem closeCallback_cases (hnext : s.closeCallback = some s')
    : ∃ i x, s.handler = some (.closeCallback i) ∧ s.conns i = some x
        ∧ (x.detached = true
            ∧ s' = { s with loop := s.loop.queueInLoop true (.conn i .connectDestroyed), handler := none }
          ∨ x.detached = false
            ∧ s' = { s with
                client := { s.client with connection_ := none }
                handler := some (.removeConnection i) }) := by
  unfold ClientLoop.closeCallback at hnext
  split at hnext
  . next i hhandler =>
    simp only [Option.map_eq_some_iff] at hnext
    obtain ⟨x, hx, rfl⟩ := hnext
    refine ⟨i, x, hhandler, hx, ?_⟩
    split
    . next hdetached => exact .inl ⟨hdetached, rfl⟩
    . next hattached => exact .inr ⟨by simpa using hattached, rfl⟩
  . cases hnext

theorem removeConnection_cases {savedErrno : Nat} (hnext : s.removeConnection savedErrno = some s')
    : ∃ i connector, s.handler = some (.removeConnection i)
        ∧ s' = { s with
            client := { s.client with connector_ := connector }
            loop := s.loop.queueInLoop true (.conn i .connectDestroyed)
            handler := none }
        ∧ (connector = s.client.connector_
          ∨ (s.client.retry_ && s.client.connect_) = true
            ∧ s.client.connector_.restart savedErrno = some connector) := by
  unfold ClientLoop.removeConnection at hnext
  split at hnext
  . next i hhandler =>
    dsimp only [queueInLoop] at hnext
    by_cases hretry : (s.client.retry_ && s.client.connect_) = true
    . rw [if_pos hretry, Option.map_eq_some_iff] at hnext
      obtain ⟨connector, hrestart, rfl⟩ := hnext
      exact ⟨i, connector, hhandler, rfl, .inr ⟨hretry, hrestart⟩⟩
    . rw [if_neg hretry, Option.some.injEq] at hnext
      exact ⟨i, s.client.connector_, hhandler, hnext.symm, .inl rfl⟩
  . cases hnext

theorem Wired.newConnection (h : s.Wired) (hnext : s.newConnection = some s') : s'.Wired := by
  obtain ⟨sockfd, hhandler, rfl⟩ := newConnection_cases hnext
  obtain ⟨hhanded, hother⟩ := h.coming sockfd hhandler
  have hnew : s.conns s.client.nextConnId_ = none := by
    rw [Option.eq_none_iff_forall_not_mem]
    intro x hx
    exact Nat.lt_irrefl _ (h.number _ x hx)
  refine ⟨h.connector, ?_, ?_, ?_, ?_, ?_, h.order, h.apart, ?_, ?_, ?_, ?_⟩
  . intro i x hx
    obtain ⟨rfl, _⟩ | ⟨_, hx⟩ := cases_of_update hx
    . exact Nat.lt_succ_self _
    . exact Nat.lt_succ_of_lt (h.number i x hx)
  . intro i x hx
    obtain ⟨_, rfl⟩ | ⟨_, hx⟩ := cases_of_update hx
    . exact hhanded
    . exact h.handed i x hx
  . intro i j x y hx hy hfd
    obtain ⟨rfl, rfl⟩ | ⟨hi, hx⟩ := cases_of_update hx
    . obtain ⟨rfl, _⟩ | ⟨_, hy⟩ := cases_of_update hy
      . rfl
      . exact absurd hfd.symm (hother j y hy)
    . obtain ⟨rfl, rfl⟩ | ⟨_, hy⟩ := cases_of_update hy
      . exact absurd hfd (hother i x hx)
      . exact h.fds i j x y hx hy hfd
  . intro sockfd' heq
    cases heq
  . intro fd hfree
    apply h.poller fd
    intro i x hx
    have hne : i ≠ s.client.nextConnId_ := Nat.ne_of_lt (h.number i x hx)
    exact hfree i x ((Function.update_of_ne hne ..).trans hx)
  . intro hne
    exact isSome_update (h.active hne)
  . intro i handler heq
    simp only [Option.filter_eq_some_iff, Option.some.injEq] at heq
    obtain ⟨rfl, hconcerns⟩ := heq
    simp only [Handler.concerns, decide_eq_true_eq] at hconcerns
    simp [setConn, ← hconcerns]
  . intro i task hmem
    obtain ⟨hopen, hold⟩ := h.tasks i task hmem
    exact ⟨hopen, isSome_update hold⟩
  . intro i x hx
    obtain ⟨rfl, rfl⟩ | ⟨hne, hx⟩ := cases_of_update hx
    . have hwaits : (queueOf s.loop).count (.conn s.client.nextConnId_ .connectDestroyed) = 0 := by
        rw [List.count_eq_zero]
        intro hmem
        have hsome := (h.tasks _ _ hmem).2
        rw [hnew] at hsome
        cases hsome
      have hepoll := (h.poller sockfd fun i x hx => hother i x hx).1
      refine .made rfl rfl rfl rfl hepoll hwaits ?_ ?_
      . simp only [view]
        split
        . next hactive =>
          by_contra hne
          have hsome := h.active hne
          have hactive : s.active = s.client.nextConnId_ := hactive
          rw [hactive, hnew] at hsome
          cases hsome
        . rfl
      . simp [view, Handler.concerns]
    . have hview : view { s.setConn s.client.nextConnId_ (s.made sockfd) with
          client :=
            { s.client with nextConnId_ := s.client.nextConnId_ + 1, connection_ := some s.client.nextConnId_ }
          handler := some (.connectEstablished s.client.nextConnId_) } i x = s.view i x := by
        apply view_congr
        . rfl
        . rfl
        . rfl
        . simp [hhandler, Option.filter_some, Handler.concerns, hne.symm]
      rw [hview]
      exact h.stage i x hx

-- a step of the handler in progress, behind which other functors wait for its connection
theorem Wired.of_handler {handler : Option Handler} {loop : EventLoop ClientTask} {client : TcpClient} (h : s.Wired)
    (hconnector : client.connector_.Fresh) (hnumber : client.nextConnId_ = s.client.nextConnId_)
    (hhanded : client.connector_.handed = s.client.connector_.handed)
    (hpoller : loop.poller = s.loop.poller)
    (htasks : ∀ j task, .conn j task ∈ queueOf loop → .conn j task ∈ queueOf s.loop ∨ j = i ∧ task = .connectDestroyed)
    (hcoming : ∀ sockfd, handler ≠ some (.newConnection sockfd)) (hx : s.conns i = some x)
    (hothers : ∀ j, j ≠ i → handler.filter (·.concerns j) = s.handler.filter (·.concerns j)
      ∧ (queueOf loop).count (.conn j .connectDestroyed) = (queueOf s.loop).count (.conn j .connectDestroyed))
    (hstage : Stage i x (view { s with client := client, loop := loop, handler := handler } i x))
    : Wired { s with client := client, loop := loop, handler := handler } := by
  refine ⟨hconnector, ?_, ?_, h.fds, ?_, ?_, h.order, h.apart, h.active, ?_, ?_, ?_⟩
  . intro j y hy
    rw [hnumber]
    exact h.number j y hy
  . intro j y hy
    rw [hhanded]
    exact h.handed j y hy
  . intro sockfd heq
    exact absurd heq (hcoming sockfd)
  . intro fd hfree
    rw [hpoller]
    exact h.poller fd hfree
  . intro j handler' heq
    by_cases hj : j = i
    . rw [hj, hx]
      rfl
    . exact h.handlers j handler' ((hothers j hj).1.symm.trans heq)
  . intro j task hmem
    obtain hold | ⟨rfl, rfl⟩ := htasks j task hmem
    . exact h.tasks j task hold
    . exact ⟨by simp, by rw [hx]; rfl⟩
  . intro j y hy
    by_cases heq : j = i
    . subst heq
      have hy : s.conns j = some y := hy
      rw [hx, Option.some.injEq] at hy
      exact hy ▸ hstage
    . have hview : view { s with client := client, loop := loop, handler := handler } j y = s.view j y := by
        simp only [view, hpoller, hothers j heq]
      rw [hview]
      exact h.stage j y hy

theorem closing_of_handler (h : s.Wired) (hx : s.conns i = some x)
    (hhandler : s.handler = some (.closeCallback i) ∨ s.handler = some (.removeConnection i))
    : x.log = [.connectEstablished, .handleClose] ∧ Shut x (s.view i x) ∧ (s.view i x).destroys = 0 := by
  have hview : (s.view i x).handler = s.handler := by
    obtain heq | heq := hhandler <;> simp [view, heq, Handler.concerns]
  rw [← hview] at hhandler
  cases h.stage i x hx with
  | made _ _ _ _ _ _ _ handler => simp [handler] at hhandler
  | up _ _ _ _ _ handler | closed _ _ _ handler | destroyed _ _ _ _ handler => simp [handler] at hhandler
  | closing log shut destroys => exact ⟨log, shut, destroys⟩

-- the connection is handed over to `connectDestroyed`
theorem Wired.queueDestroyed {client : TcpClient} (h : s.Wired)
    (hconnector : client.connector_.Fresh) (hnumber : client.nextConnId_ = s.client.nextConnId_)
    (hhanded : client.connector_.handed = s.client.connector_.handed) (hx : s.conns i = some x)
    (hhandler : s.handler = some (.closeCallback i) ∨ s.handler = some (.removeConnection i))
    : Wired { s with
        client := client
        loop := s.loop.queueInLoop true (.conn i .connectDestroyed)
        handler := none } := by
  have hqueue : queueOf (s.loop.queueInLoop true (.conn i .connectDestroyed))
      = queueOf s.loop ++ [.conn i .connectDestroyed] := by
    simp only [queueOf, EventLoop.functors_queueInLoop, EventLoop.pendingFunctors_queueInLoop, List.append_assoc]
  have hpoller : (s.loop.queueInLoop true (.conn i .connectDestroyed)).poller = s.loop.poller :=
    EventLoop.poller_queueInLoop ..
  obtain ⟨hlog, hshut, hdestroys⟩ := closing_of_handler h hx hhandler
  refine h.of_handler hconnector hnumber hhanded hpoller ?_ (by simp) hx ?_ ?_
  . intro j task hmem
    rw [hqueue, List.mem_append, List.mem_singleton] at hmem
    obtain hold | hnew := hmem
    . exact .inl hold
    . simp only [ClientTask.conn.injEq] at hnew
      exact .inr hnew
  . intro j hne
    constructor
    . obtain heq | heq := hhandler <;> simp [heq, Option.filter_some, Handler.concerns, hne.symm]
    . have hother : ClientTask.conn i .connectDestroyed ≠ .conn j .connectDestroyed := by
        simp [hne.symm]
      rw [hqueue, List.count_append, List.count_singleton, beq_false_of_ne hother]
      simp
  . refine .closed hlog ⟨hshut.state_, hshut.events, ?_, hshut.index, hshut.close, hshut.read⟩ ?_ rfl
    . simp only [view, hpoller]
      exact hshut.epoll
    . simp only [view, hqueue, List.count_append, List.count_singleton_self]
      exact congrArg (· + 1) hdestroys

theorem Wired.closeCallback (h : s.Wired) (hnext : s.closeCallback = some s') : s'.Wired := by
  obtain ⟨i, x, hhandler, hx, ⟨_, rfl⟩ | ⟨_, rfl⟩⟩ := closeCallback_cases hnext
  . exact h.queueDestroyed h.connector rfl rfl hx (.inl hhandler)
  . obtain ⟨hlog, hshut, hdestroys⟩ := closing_of_handler h hx (.inl hhandler)
    refine h.of_handler h.connector rfl rfl rfl (fun _ _ hmem => .inl hmem) (by simp) hx ?_ ?_
    . intro j hne
      refine ⟨?_, rfl⟩
      simp [hhandler, Option.filter_some, Handler.concerns, hne.symm]
    . refine .closing hlog ⟨hshut.state_, hshut.events, hshut.epoll, hshut.index, hshut.close, hshut.read⟩
        hdestroys (.inr ?_)
      simp [view, Handler.concerns]

theorem Wired.removeConnection {savedErrno : Nat} (h : s.Wired) (hnext : s.removeConnection savedErrno = some s')
    : s'.Wired := by
  obtain ⟨i, connector, hhandler, rfl, hconnector⟩ := removeConnection_cases hnext
  have hconcerns : s.handler.filter (·.concerns i) = some (.removeConnection i) := by
    simp [hhandler, Option.filter_some, Handler.concerns]
  obtain ⟨x, hx⟩ := Option.isSome_iff_exists.mp (h.handlers i _ hconcerns)
  obtain rfl | ⟨_, hrestart⟩ := hconnector
  . exact h.queueDestroyed h.connector rfl rfl hx (.inr hhandler)
  . have hkeeps := h.connector.restart hrestart
    exact h.queueDestroyed hkeeps.fresh rfl hkeeps.handed hx (.inr hhandler)

-- epoll has reported the channel of an open connection
theorem Wired.handleEvent {revents : Events} (h : s.Wired) (hx : s.conns i = some x)
    (hreports : s.reports i revents = true)
    : Wired { s with active := i, todo := { x.conn.channel with revents := revents }.handleEventWithGuard } := by
  obtain ⟨horder, hapart⟩ := TcpConnection.Life.order_handleEvent { x.conn.channel with revents := revents }
  refine ⟨h.connector, h.number, h.handed, h.fds, h.coming, h.poller, horder, hapart, ?_, h.handlers, h.tasks, ?_⟩
  . intro _
    exact Option.isSome_iff_exists.mpr ⟨x, hx⟩
  . intro j y hy
    have hstage := h.stage j y hy
    by_cases heq : j = i
    . subst heq
      have hy : s.conns j = some y := hy
      rw [hx, Option.some.injEq] at hy
      subst hy
      have hepoll : (s.view j x).epoll.isSome = true := by
        simp only [ClientLoop.reports, hx] at hreports
        simp only [view]
        split at hreports
        . cases hreports
        . next hentry => simp [hentry]
      obtain ⟨_, hup, _⟩ := hstage.up_of_epoll hepoll
      obtain ⟨hlog, hsynced, hregistered, hdestroys, hhandler⟩ := hstage.of_up hup
      exact .up hlog hup hsynced hregistered hdestroys hhandler
    . refine hstage.of_same ⟨rfl, ?_, rfl⟩ rfl rfl
      have hne : i ≠ j := fun hij => heq hij.symm
      simp [view, hne]

/-
The functors, and the steps together.
-/

-- the functors that wait stay the same, or one that is not of a connection is gone
theorem Wired.of_queue {loop : EventLoop ClientTask} (h : s.Wired) (hpoller : loop.poller = s.loop.poller)
    (hqueue : ∀ i task, (queueOf loop).count (.conn i task) = (queueOf s.loop).count (.conn i task))
    : Wired { s with loop := loop } := by
  have hmem : ∀ i task, ClientTask.conn i task ∈ queueOf loop → .conn i task ∈ queueOf s.loop := by
    intro i task hmem
    rw [← List.count_pos_iff] at hmem ⊢
    rwa [← hqueue]
  refine ⟨h.connector, h.number, h.handed, h.fds, h.coming, ?_, h.order, h.apart, h.active, h.handlers,
    fun i task hmem' => h.tasks i task (hmem i task hmem'), ?_⟩
  . intro fd hfree
    rw [hpoller]
    exact h.poller fd hfree
  . intro i x hx
    have hview : { s with loop := loop }.view i x = s.view i x := by
      simp only [view, hpoller, hqueue]
    rw [hview]
    exact h.stage i x hx

theorem Wired.swap (h : s.Wired) (hfunctors : s.loop.functors = [])
    : Wired { s with loop := s.loop.swapFunctors } := by
  refine h.of_queue rfl ?_
  simp [queueOf, EventLoop.swapFunctors, hfunctors]

-- a functor that is not of a connection is gone
theorem Wired.popFunctor {cb : ClientTask} {functors : List ClientTask} (h : s.Wired)
    (hfunctors : s.loop.functors = cb :: functors) (hcb : ∀ i task, cb ≠ .conn i task)
    : Wired { s with loop := { s.loop with functors := functors } } := by
  refine h.of_queue rfl ?_
  intro i task
  simp [queueOf, hfunctors, List.count_cons_of_ne (hcb i task)]

theorem Wired.detach (h : s.Wired) (hx : s.conns i = some x)
    : Wired (s.setConn i { x with detached := true }) := by
  have hacts : Acts s (s.setConn i { x with detached := true }) i x { x with detached := true } :=
    ⟨rfl, .of_eq rfl rfl, rfl, rfl, fun _ _ => rfl, fun _ hmem => .inl hmem, fun _ hmem _ => hmem, rfl,
      List.Sublist.refl _, fun _ => rfl, fun _ _ => rfl, fun _ => id⟩
  refine h.acts hx hacts ?_
  exact (h.stage i x hx).of_call rfl rfl id fun _ => rfl

/--
The step puts an attempt in flight.
-/
def starts (s : ClientLoop) : Label → Bool
  | .connect savedErrno => Connector.outcome savedErrno = .connecting
  | .timer _ savedErrno => s.client.connector_.connect_ && Connector.outcome savedErrno = .connecting
  | .runFunctor _ _ savedErrno =>
    s.loop.functors.head? = some .startInLoop && s.client.connector_.connect_
      && Connector.outcome savedErrno = .connecting
  | _ => false

/--
What a step does.
-/
inductive Effect (s : ClientLoop) (a : Label) : ClientLoop → Prop where
  | client (client : TcpClient) (user : s.inUserCode = true)
    (connection : client.connection_ = s.client.connection_) (number : client.nextConnId_ = s.client.nextConnId_)
    (keeps : s.client.connector_.Keeps (s.starts a) client.connector_)
    (spent : a.ofClient = false → client.connector_.connect_ = s.client.connector_.connect_
      ∧ (s.client.connector_.spent = true → client.connector_.spent = true))
    : Effect s a { s with client := client }
  | ran {s' : ClientLoop} (i : Nat) (x x' : Made) (ran : Ran s s' i x x')
    (handler : s'.handler = s.handler ∨ s'.handler = none ∨ s.closes a = some i) : Effect s a s'
  | handed (connector : Connector) (sockfd : Fd) (idle : s.handler = none)
    (before : s.client.connector_.state_ = .kConnecting) (connect : s.client.connector_.connect_ = true)
    (fresh : connector.Fresh) (state : connector.state_ = .kConnected)
    (unused : sockfd ∉ s.client.connector_.handed)
    (hands : connector.handed = s.client.connector_.handed ++ [sockfd])
    : Effect s a { s.setConnector connector with handler := some (.newConnection sockfd) }
  | newConnection {s' : ClientLoop} (next : s.newConnection = some s') : Effect s a s'
  | closeCallback {s' : ClientLoop} (next : s.closeCallback = some s') : Effect s a s'
  | removeConnection {s' : ClientLoop} (savedErrno : Nat) (label : a = .removeConnection savedErrno)
    (next : s.removeConnection savedErrno = some s') : Effect s a s'
  | event (i : Nat) (x : Made) (revents : Events) (known : s.conns i = some x) (reports : s.reports i revents = true)
    : Effect s a { s with
        active := i
        todo := { x.conn.channel with revents := revents }.handleEventWithGuard }
  | swap (empty : s.loop.functors = []) : Effect s a { s with loop := s.loop.swapFunctors }
  | started (connector : Connector) (functors : List ClientTask) (head : s.loop.functors = .startInLoop :: functors)
    (keeps : s.client.connector_.Keeps (s.starts a) connector)
    (connect : connector.connect_ = s.client.connector_.connect_)
    (off : s.client.connector_.connect_ = false → connector = s.client.connector_)
    : Effect s a (setConnector { s with loop := { s.loop with functors := functors } } connector)
  | stopped (connector : Connector) (functors : List ClientTask) (head : s.loop.functors = .stopInLoop :: functors)
    (keeps : s.client.connector_.Keeps False connector)
    (spent : connector.connect_ = s.client.connector_.connect_
      ∧ (s.client.connector_.spent = true → connector.spent = true))
    : Effect s a (setConnector { s with loop := { s.loop with functors := functors } } connector)
  | detached (i : Nat) (x : Made) (functors : List ClientTask) (known : s.conns i = some x)
    (head : s.loop.functors = .setCloseCallback i :: functors)
    : Effect s a (setConn { s with loop := { s.loop with functors := functors } } i { x with detached := true })

variable {a : Label}

theorem Effect.wired (h : s.Wired) (heffect : Effect s a s') : s'.Wired := by
  cases heffect with
  | client client user connection number keeps spent => exact h.setClient keeps.fresh number keeps.handed
  | ran i x x' ran => exact h.ran ran
  | handed connector sockfd idle before connect fresh state unused hands => exact h.handOver idle fresh unused hands
  | newConnection next => exact h.newConnection next
  | closeCallback next => exact h.closeCallback next
  | removeConnection savedErrno label next => exact h.removeConnection next
  | event i x revents known reports => exact h.handleEvent known reports
  | swap empty => exact h.swap empty
  | started connector functors head keeps | stopped connector functors head keeps =>
    have hpopped := h.popFunctor head (by simp)
    exact hpopped.setConnector keeps
  | detached i x functors known head =>
    have hpopped := h.popFunctor head (by simp)
    exact hpopped.detach known

theorem inUserCode_of_idle (hidle : s.idle = true) : s.inUserCode = true := by
  simp only [idle, Bool.and_eq_true, Option.isNone_iff_eq_none] at hidle
  exact inUserCode_of_none hidle.1

theorem Wired.effect_handleWrite {err : Nat} {isSelfConnect : Bool} (h : s.Wired) (hidle : s.handler = none)
    (hnext : s.handleWrite err isSelfConnect = some s') : Effect s a s' := by
  simp only [ClientLoop.handleWrite, Option.map_eq_some_iff] at hnext
  obtain ⟨connector, hwrite, rfl⟩ := hnext
  obtain hkeeps | ⟨hbefore, hconnect, hfresh, hstate, sockfd, hnew, hhanded⟩ := h.connector.handleWrite hwrite
  . have hsame : { s.setConnector connector with handler := none } = s.setConnector connector := by
      rw [← hidle]
      rfl
    simp only [hkeeps.handed, List.drop_length, List.head?_nil, Option.map_none]
    rw [hsame]
    refine .client _ (inUserCode_of_none hidle) rfl rfl ⟨hkeeps.fresh, hkeeps.handed, ?_⟩
      fun _ => Connector.spent_handleWrite hwrite
    exact fun hstate => (hkeeps.state hstate).imp id False.elim
  . simp only [hhanded, List.drop_left, List.head?_cons, Option.map_some]
    exact .handed connector sockfd hidle hbefore hconnect hfresh hstate hnew hhanded

theorem Wired.effect_disconnect (h : s.Wired) (huser : s.inUserCode = true) (hnext : s.disconnect = some s')
    : Effect s a s' := by
  unfold ClientLoop.disconnect at hnext
  dsimp only at hnext
  split at hnext
  . simp only [Option.some.injEq] at hnext
    subst hnext
    exact .client _ huser rfl rfl ⟨h.connector, rfl, .inl⟩ fun _ => ⟨rfl, id⟩
  . next i hconnection =>
    simp only [Option.map_eq_some_iff] at hnext
    obtain ⟨x, hx, rfl⟩ := hnext
    exact .ran i x _ (h.ran_disconnect hx rfl) (.inl rfl)

theorem Wired.effect_callback {n : Int} {w : WriteResult} (h : s.Wired) (hidle : s.handler = none)
    (hnext : s.callback n w = some s') : Effect s (.callback n w) s' := by
  obtain ⟨i, x, x', hran, hhandler⟩ := h.ran_callback hidle hnext
  exact .ran i x x' hran (.inr hhandler)

theorem Wired.effect_runFunctor {message : List UInt8} {w : WriteResult} {savedErrno : Nat} (h : s.Wired)
    (hidle : s.handler = none) (htodo : s.todo = []) (hnext : s.runFunctor message w savedErrno = some s')
    : Effect s (.runFunctor message w savedErrno) s' := by
  unfold ClientLoop.runFunctor at hnext
  split at hnext
  . cases hnext
  . next cb functors hfunctors =>
    dsimp only at hnext
    split at hnext
    . next i task =>
      simp only [Option.bind_eq_some_iff, Option.map_eq_some_iff] at hnext
      obtain ⟨x, hx, r, hrun, rfl⟩ := hnext
      obtain ⟨x', hran, hhandler⟩ := h.ran_task hidle htodo hfunctors hx hrun
      exact .ran i x x' hran (.inr hhandler)
    . simp only [Option.map_eq_some_iff] at hnext
      obtain ⟨connector, hstart, rfl⟩ := hnext
      obtain ⟨hfresh, hhanded, hstate⟩ := h.connector.startInLoop hstart
      refine .started connector functors hfunctors ⟨hfresh, hhanded, ?_⟩ (Connector.connect_startInLoop hstart) ?_
      . exact fun hconnecting => (hstate hconnecting).imp id (by simp [starts, hfunctors])
      . exact fun hoff => Connector.startInLoop_off hoff hstart
    . simp only [Option.map_eq_some_iff] at hnext
      obtain ⟨connector, hstop, rfl⟩ := hnext
      exact .stopped connector functors hfunctors (h.connector.stopInLoop hstop).1 (h.connector.spent_stopInLoop hstop)
    . next i =>
      simp only [Option.map_eq_some_iff] at hnext
      obtain ⟨x, hx, rfl⟩ := hnext
      exact .detached i x functors hx hfunctors

theorem Wired.effect (h : s.Wired) (hstep : system.step s a = some s') : Effect s a s' := by
  obtain ⟨henabled, hnext⟩ := LTS.guarded_step.mp hstep
  have hkeeps : ∀ {connector : Connector} {starts : Prop}, s.idle = true →
      s.client.connector_.Keeps starts connector → (starts → s.starts a = true) →
      (connector.connect_ = s.client.connector_.connect_
        ∧ (s.client.connector_.spent = true → connector.spent = true)) → Effect s a (s.setConnector connector) := by
    intro connector starts hidle hkeeps hstarts hspent
    refine .client _ (inUserCode_of_idle hidle) rfl rfl ⟨hkeeps.fresh, hkeeps.handed, ?_⟩ fun _ => hspent
    exact fun hstate => (hkeeps.state hstate).imp id hstarts
  cases a with
  | enableRetry =>
    simp only [next, Option.some.injEq] at hnext
    subst hnext
    exact .client _ henabled rfl rfl ⟨h.connector, rfl, .inl⟩ fun _ => ⟨rfl, id⟩
  | connect savedErrno =>
    simp only [next, TcpClient.connect, Option.map_eq_some_iff] at hnext
    obtain ⟨_, ⟨connector, hstart, rfl⟩, rfl⟩ := hnext
    obtain ⟨hfresh, hhanded, hstate⟩ := h.connector.start hstart
    refine .client _ henabled rfl rfl ⟨hfresh, hhanded, ?_⟩ (by simp [Label.ofClient])
    exact fun hconnecting => (hstate hconnecting).imp id (by simp [starts])
  | disconnect => exact h.effect_disconnect henabled hnext
  | stop =>
    simp only [next, TcpClient.stop, Option.map_eq_some_iff] at hnext
    obtain ⟨_, ⟨connector, hstop, rfl⟩, rfl⟩ := hnext
    obtain ⟨⟨hfresh, hhanded, _⟩, hnot, _⟩ := h.connector.stop hstop
    refine .client _ henabled rfl rfl ⟨hfresh, hhanded, ?_⟩ (by simp [Label.ofClient])
    exact fun hconnecting => absurd hconnecting hnot
  | send i message contents w =>
    simp only [enabled, Bool.and_eq_true] at henabled
    simp only [next, Option.bind_eq_some_iff, Option.map_eq_some_iff] at hnext
    obtain ⟨x, hx, ⟨conn, loop⟩, hsend, rfl⟩ := hnext
    exact .ran i x _ (h.ran_send henabled.1.1 hx hsend) (.inl rfl)
  | forceClose i =>
    simp only [next, Option.map_eq_some_iff] at hnext
    obtain ⟨x, hx, rfl⟩ := hnext
    exact .ran i x _ (h.ran_forceClose hx rfl) (.inl rfl)
  | handleWrite err isSelfConnect =>
    simp only [enabled, idle, Bool.and_eq_true, Option.isNone_iff_eq_none] at henabled
    exact h.effect_handleWrite henabled.1 hnext
  | handleError =>
    simp only [next, Option.map_eq_some_iff] at hnext
    obtain ⟨connector, herror, rfl⟩ := hnext
    obtain rfl := h.connector.handleError herror
    exact .client _ (inUserCode_of_idle henabled) rfl rfl ⟨h.connector, rfl, .inl⟩ fun _ => ⟨rfl, id⟩
  | timer i savedErrno =>
    simp only [enabled, Bool.and_eq_true, decide_eq_true_eq] at henabled
    simp only [next, Option.map_eq_some_iff] at hnext
    obtain ⟨connector, htimer, rfl⟩ := hnext
    have hspent := Connector.spent_timer henabled.2 htimer
    exact hkeeps henabled.1 (h.connector.timer htimer) (by simp [starts]) hspent
  | resetChannel =>
    simp only [enabled, Bool.and_eq_true] at henabled
    simp only [next, Option.map_eq_some_iff] at hnext
    obtain ⟨connector, hreset, rfl⟩ := hnext
    exact hkeeps henabled.1 (h.connector.resetChannel hreset) False.elim (Connector.spent_resetChannel hreset)
  | newConnection => exact .newConnection hnext
  | connectEstablished =>
    obtain ⟨i, x, x', hran, hhandler⟩ := h.ran_connectEstablished hnext
    exact .ran i x x' hran (.inr (.inl hhandler))
  | handleEvent i revents =>
    simp only [enabled, Bool.and_eq_true] at henabled
    simp only [next, Option.map_eq_some_iff] at hnext
    obtain ⟨x, hx, rfl⟩ := hnext
    exact .event i x revents hx henabled.2
  | callback n w =>
    simp only [enabled, Bool.and_eq_true, Option.isNone_iff_eq_none] at henabled
    exact h.effect_callback henabled.1 hnext
  | closeCallback => exact .closeCallback hnext
  | removeConnection savedErrno => exact .removeConnection savedErrno rfl hnext
  | swap =>
    simp only [next, Option.some.injEq] at hnext
    subst hnext
    simp only [enabled, Bool.and_eq_true, List.isEmpty_iff] at henabled
    exact .swap henabled.2
  | runFunctor message w savedErrno =>
    simp only [enabled, idle, Bool.and_eq_true, Option.isNone_iff_eq_none, List.isEmpty_iff] at henabled
    exact h.effect_runFunctor henabled.1.1 henabled.1.2 hnext

theorem Wired.step (h : s.Wired) (hstep : system.step s a = some s') : s'.Wired :=
  (h.effect hstep).wired h

theorem wired_reachable {ok : ClientLoop → Label → Prop} (h : system.ReachableBy ok s) : s.Wired :=
  h.reachable.invariant Wired (fun _ => Started.wired) (fun _ _ _ hwired => hwired.step)

end ClientLoop

end TcpClient

end MyMuduo
