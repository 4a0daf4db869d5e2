import MyMuduo.Connector.Handed
import MyMuduo.TcpClient.Stages
import MyMuduo.TcpConnection.Confined

/-!
This module contains what holds in every run of a client: the sockets of its connections differ, and each
connection is in one of the stages.
-/

namespace MyMuduo

namespace TcpClient

open TcpConnection (Task Notice Functor Quiet Through)

namespace ClientLoop

structure Wired (s : ClientLoop) : Prop where
  connector : s.client.connector_.Fresh
  number : ∀ i x, s.conns i = some x → i < s.client.nextConnId_
  handed : ∀ i x, s.conns i = some x → x.conn.channel.fd ∈ s.client.connector_.handed
  fds : ∀ i j x y, s.conns i = some x → s.conns j = some y → x.conn.channel.fd = y.conn.channel.fd → i = j
  coming : ∀ sockfd, s.handler = some (.newConnection sockfd) →
    sockfd ∈ s.client.connector_.handed ∧ ∀ i x, s.conns i = some x → x.conn.channel.fd ≠ sockfd
  poller : ∀ fd, (∀ i x, s.conns i = some x → x.conn.channel.fd ≠ fd) →
    s.loop.poller.epoll fd = none ∧ s.loop.poller.channels fd = none
  order : s.todo.Sublist [.close, .error, .read, .write]
  apart : .close ∈ s.todo → .read ∉ s.todo
  active : s.todo ≠ [] → (s.conns s.active).isSome = true
  handlers : ∀ i handler, s.handler.filter (·.concerns i) = some handler → (s.conns i).isSome = true
  tasks : ∀ i task, .conn i task ∈ queueOf s.loop → task ≠ .connectEstablished ∧ (s.conns i).isSome = true
  stage : ∀ i x, s.conns i = some x → Stage i x (s.view i x)

variable {s s' : ClientLoop} {i j : Nat} {x x' y : Made}

theorem Started.wired (h : s.Started) : s.Wired := by
  obtain ⟨⟨writeCompleteCallback, hclient⟩, hconns, hpoller, hfunctors, hpending, htodo, hhandler⟩ := h
  have hqueue : queueOf s.loop = [] := by
    simp [queueOf, hfunctors, hpending]
  constructor
  . rw [hclient]
    exact Connector.fresh_new
  . simp [hconns]
  . simp [hconns]
  . simp [hconns]
  . simp [hhandler]
  . exact fun fd _ => hpoller fd
  . simp [htodo]
  . simp [htodo]
  . simp [htodo]
  . simp [hhandler]
  . simp [hqueue]
  . simp [hconns]

/-
The steps of the client and of its connector, which leave the connections alone.
-/

theorem view_congr (hloop : s'.loop = s.loop) (hactive : s'.active = s.active) (htodo : s'.todo = s.todo)
    (hhandler : s'.handler.filter (·.concerns i) = s.handler.filter (·.concerns i)) : s'.view i x = s.view i x := by
  simp only [view, hloop, hactive, htodo, hhandler]

theorem Wired.of_client {client : TcpClient} {handler : Option Handler} (h : s.Wired)
    (hconnector : client.connector_.Fresh) (hnumber : client.nextConnId_ = s.client.nextConnId_)
    (hhanded : ∀ fd ∈ s.client.connector_.handed, fd ∈ client.connector_.handed)
    (hhandler : ∀ i, handler.filter (·.concerns i) = s.handler.filter (·.concerns i))
    (hcoming : ∀ sockfd, handler = some (.newConnection sockfd) →
      sockfd ∈ client.connector_.handed ∧ ∀ i x, s.conns i = some x → x.conn.channel.fd ≠ sockfd)
    : Wired { s with client := client, handler := handler } := by
  refine ⟨hconnector, ?_, ?_, h.fds, hcoming, h.poller, h.order, h.apart, h.active, ?_, h.tasks, ?_⟩
  . intro i x hx
    rw [hnumber]
    exact h.number i x hx
  . exact fun i x hx => hhanded _ (h.handed i x hx)
  . intro i handler' heq
    exact h.handlers i handler' ((hhandler i).symm.trans heq)
  . intro i x hx
    have hview : { s with client := client, handler := handler }.view i x = s.view i x :=
      view_congr rfl rfl rfl (hhandler i)
    rw [hview]
    exact h.stage i x hx

theorem Wired.setClient {client : TcpClient} (h : s.Wired) (hconnector : client.connector_.Fresh)
    (hnumber : client.nextConnId_ = s.client.nextConnId_)
    (hhanded : client.connector_.handed = s.client.connector_.handed) : Wired { s with client := client } := by
  refine h.of_client hconnector hnumber ?_ (fun _ => rfl) ?_
  . exact fun fd hmem => hhanded ▸ hmem
  . rw [hhanded]
    exact h.coming

theorem Wired.setConnector {starts : Prop} {connector : Connector} (h : s.Wired)
    (hkeeps : s.client.connector_.Keeps starts connector) : (s.setConnector connector).Wired :=
  h.setClient hkeeps.fresh rfl hkeeps.handed

theorem Wired.handOver {connector : Connector} {sockfd : Fd} (h : s.Wired) (hidle : s.handler = none)
    (hfresh : connector.Fresh) (hnew : sockfd ∉ s.client.connector_.handed)
    (hhanded : connector.handed = s.client.connector_.handed ++ [sockfd])
    : Wired { s.setConnector connector with handler := some (.newConnection sockfd) } := by
  refine h.of_client hfresh rfl ?_ ?_ ?_
  . intro fd hmem
    change fd ∈ connector.handed
    rw [hhanded]
    exact List.mem_append_left _ hmem
  . simp [hidle, Option.filter_some, Handler.concerns]
  . rintro _ ⟨rfl⟩
    refine ⟨?_, ?_⟩
    . change sockfd ∈ connector.handed
      simp [hhanded]
    . rintro i x hx rfl
      exact hnew (h.handed i x hx)

/-
The functions of one connection.
-/

/--
A function of the connection `i` has run.
-/
structure Acts (s s' : ClientLoop) (i : Nat) (x x' : Made) : Prop where
  conns : s'.conns = Function.update s.conns i (some x')
  through : Through x.conn s.loop x'.conn s'.loop
  connector : s'.client.connector_ = s.client.connector_
  number : s'.client.nextConnId_ = s.client.nextConnId_
  destroys : ∀ j, j ≠ i →
    (queueOf s'.loop).count (.conn j .connectDestroyed) = (queueOf s.loop).count (.conn j .connectDestroyed)
  tasks : ∀ cb ∈ queueOf s'.loop, cb ∈ queueOf s.loop ∨ ∃ task, cb = .conn i task ∧ task ≠ .connectEstablished
  kept : ∀ cb ∈ queueOf s.loop, (∀ task, cb ≠ .conn i task) → cb ∈ queueOf s'.loop
  active : s'.active = s.active
  todo : s'.todo.Sublist s.todo
  todoOthers : s.active ≠ i → s'.todo = s.todo
  handler : ∀ j, j ≠ i → s'.handler.filter (·.concerns j) = s.handler.filter (·.concerns j)
  coming : ∀ sockfd, s'.handler = some (.newConnection sockfd) → s.handler = some (.newConnection sockfd)

theorem cases_of_update {conns : Nat → Option Made} (hy : Function.update conns i (some x) j = some y)
    : j = i ∧ y = x ∨ j ≠ i ∧ conns j = some y := by
  by_cases heq : j = i
  . subst heq
    rw [Function.update_self, Option.some.injEq] at hy
    exact .inl ⟨rfl, hy.symm⟩
  . rw [Function.update_of_ne heq] at hy
    exact .inr ⟨heq, hy⟩

theorem isSome_update {conns : Nat → Option Made} (hsome : (conns j).isSome = true)
    : (Function.update conns i (some x) j).isSome = true := by
  by_cases heq : j = i
  . simp [heq]
  . rwa [Function.update_of_ne heq]

theorem Acts.cases (h : Acts s s' i x x') (hy : s'.conns j = some y)
    : j = i ∧ y = x' ∨ j ≠ i ∧ s.conns j = some y :=
  cases_of_update (h.conns ▸ hy)

theorem Acts.view_of_ne (h : Acts s s' i x x') (hne : j ≠ i) (hfd : y.conn.channel.fd ≠ x.conn.channel.fd)
    : s'.view j y = s.view j y := by
  have htodo : (if s'.active = j then s'.todo else []) = if s.active = j then s.todo else [] := by
    rw [h.active]
    split
    . next hactive => exact h.todoOthers (by rwa [hactive])
    . rfl
  simp only [view, h.through.poller.confined.others _ hfd, h.through.poller.channels hfd, h.destroys j hne, htodo,
    h.handler j hne]

theorem Wired.acts (h : s.Wired) (hx : s.conns i = some x) (hacts : Acts s s' i x x')
    (hstage : Stage i x' (s'.view i x')) : s'.Wired := by
  have hfd := hacts.through.fd
  have hback : ∀ j y, s'.conns j = some y → ∃ y₀, s.conns j = some y₀ ∧ y.conn.channel.fd = y₀.conn.channel.fd := by
    intro j y hy
    obtain ⟨rfl, rfl⟩ | ⟨_, hy⟩ := hacts.cases hy
    . exact ⟨x, hx, hfd⟩
    . exact ⟨y, hy, rfl⟩
  have hforth : ∀ fd, (∀ j y, s'.conns j = some y → y.conn.channel.fd ≠ fd) →
      ∀ j y, s.conns j = some y → y.conn.channel.fd ≠ fd := by
    intro fd hother j y hy
    by_cases heq : j = i
    . subst heq
      rw [hx, Option.some.injEq] at hy
      subst hy
      rw [← hfd]
      exact hother j x' (by rw [hacts.conns, Function.update_self])
    . exact hother j y (by rw [hacts.conns, Function.update_of_ne heq, hy])
  have hsome : ∀ k, (s.conns k).isSome = true → (s'.conns k).isSome = true :=
    fun k hk => hacts.conns ▸ isSome_update hk
  constructor
  . rw [hacts.connector]
    exact h.connector
  . intro j y hy
    obtain ⟨y₀, hy₀, _⟩ := hback j y hy
    rw [hacts.number]
    exact h.number j y₀ hy₀
  . intro j y hy
    obtain ⟨y₀, hy₀, heq⟩ := hback j y hy
    rw [hacts.connector, heq]
    exact h.handed j y₀ hy₀
  . intro j k y z hy hz heq
    obtain ⟨y₀, hy₀, heqY⟩ := hback j y hy
    obtain ⟨z₀, hz₀, heqZ⟩ := hback k z hz
    exact h.fds j k y₀ z₀ hy₀ hz₀ (by rw [← heqY, heq, heqZ])
  . intro sockfd hcoming
    obtain ⟨hmem, hother⟩ := h.coming sockfd (hacts.coming sockfd hcoming)
    rw [hacts.connector]
    refine ⟨hmem, ?_⟩
    intro j y hy
    obtain ⟨y₀, hy₀, heq⟩ := hback j y hy
    rw [heq]
    exact hother j y₀ hy₀
  . intro fd hother
    have hold := hforth fd hother
    obtain ⟨hepoll, hchannels⟩ := h.poller fd hold
    have hne : fd ≠ x.conn.channel.fd := (hold i x hx).symm
    rw [hacts.through.poller.confined.others fd hne, hacts.through.poller.channels hne]
    exact ⟨hepoll, hchannels⟩
  . exact hacts.todo.trans h.order
  . exact fun hclose hread => h.apart (hacts.todo.mem hclose) (hacts.todo.mem hread)
  . intro hne
    rw [hacts.active]
    apply hsome
    apply h.active
    intro hnil
    exact hne (List.sublist_nil.mp (hnil ▸ hacts.todo))
  . intro j handler heq
    by_cases hj : j = i
    . rw [hj, hacts.conns, Function.update_self]
      rfl
    . exact hsome j (h.handlers j handler ((hacts.handler j hj).symm.trans heq))
  . intro j task hmem
    obtain hold | ⟨_, ⟨rfl, rfl⟩, htask⟩ := hacts.tasks _ hmem
    . exact ⟨(h.tasks j task hold).1, hsome j (h.tasks j task hold).2⟩
    . exact ⟨htask, by rw [hacts.conns, Function.update_self]; rfl⟩
  . intro j y hy
    obtain ⟨rfl, rfl⟩ | ⟨hne, hy⟩ := hacts.cases hy
    . exact hstage
    . have hother : y.conn.channel.fd ≠ x.conn.channel.fd := fun heq => hne (h.fds j i y x hy hx heq)
      rw [hacts.view_of_ne hne hother]
      exact h.stage j y hy

end ClientLoop

end TcpClient

end MyMuduo
