import MyMuduo.Link.Delivery
import MyMuduo.TcpConnection.Calm

/-!
This module contains the echo servers of the examples at the end of a connection: what comes back to the client
is what it has sent, as far as no message has been given up.
-/

namespace MyMuduo

open TcpConnection (Life)

-- `onMessage` of `muduoServer.cc` and of `testserver.cc`
inductive EchoServer where
  | muduoServer
  | testserver
  deriving DecidableEq, Repr

/--
What is left of `onMessage`.
-/
inductive OnMessage where
  | idle
  | retrieveAllAsString
  | send (msg : List UInt8)
  | shutdown
  deriving DecidableEq, Repr

namespace OnMessage

def afterSend : EchoServer → OnMessage
  | .muduoServer => idle
  | .testserver => shutdown

-- the bytes in the local variable `msg` that have not been sent
def msg : OnMessage → List UInt8
  | send msg => msg
  | idle | retrieveAllAsString | shutdown => []

end OnMessage

/--
A connection whose server end is that of an echo server, and any client.
-/
structure Echo where
  link : Link
  onMessage : OnMessage

namespace Echo

def server (s : Echo) : Endpoint :=
  s.link.ends .server

inductive Label where
  | client (a : Endpoint.Label)
  -- the loop of the connection, or another thread
  | server (a : Endpoint.Label)
  -- the next call in `onMessage`
  | onMessage (addr : Addr) (w : WriteResult)

-- the calls of the user, of which there are none outside of `onMessage`
def ofUser : Endpoint.Label → Bool
  | .call _ | .life (.send ..) | .life (.shutdown _) | .life (.forceClose _) => true
  | .handleRead _ | .life _ => false

-- what other threads do goes on while `onMessage` is running
def ofOtherThread : Endpoint.Label → Bool
  | .life (.removeConnectionInLoop isInLoopThread) | .life (.destroyServer isInLoopThread) => !isInLoopThread
  | _ => false

def enabled (s : Echo) : Label → Bool
  | .client _ => true
  | .server a => !ofUser a && (s.onMessage = .idle || ofOtherThread a)
  | .onMessage _ _ => true

-- the read callback calls `onMessage` when it has brought bytes
def called (rest : OnMessage) : Endpoint.Label → OnMessage
  | .handleRead (.received bytes) => if bytes = [] then rest else .retrieveAllAsString
  | _ => rest

def act (s : Echo) (a : Link.Label) (rest : OnMessage) : Option Echo :=
  (Link.system.step s.link a).map fun link => { link := link, onMessage := rest }

def next (program : EchoServer) (s : Echo) : Label → Option Echo
  | .client a => s.act (.client, a) s.onMessage
  | .server a => s.act (.server, a) (called s.onMessage a)
  | .onMessage addr w =>
    match s.onMessage with
    | .idle => none
    | .retrieveAllAsString =>
      s.server.inputBuffer.retrieveAllAsString.bind fun (msg, _) =>
        s.act (.server, .call .retrieveAllAsString) (.send msg)
    | .send msg => s.act (.server, .life (.send true addr msg w)) (.afterSend program)
    | .shutdown => s.act (.server, .life (.shutdown true)) .idle

def system (program : EchoServer) : LTS Echo Label :=
  .guarded (fun s => (∀ side, (s.link.ends side).Established) ∧ s.onMessage = .idle) enabled (next program)

variable {program : EchoServer} {s s' : Echo} {a : Label}

theorem act_step {a : Link.Label} {rest : OnMessage} (h : s.act a rest = some s')
    : Link.system.step s.link a = some s'.link ∧ s'.onMessage = rest := by
  simp only [act, Option.map_eq_some_iff] at h
  obtain ⟨link, hstep, rfl⟩ := h
  exact ⟨hstep, rfl⟩

-- every step is one of the connection
theorem link_step (hstep : (system program).step s a = some s')
    : ∃ b, Link.system.step s.link b = some s'.link := by
  obtain ⟨_, hnext⟩ := LTS.guarded_step.mp hstep
  cases a with
  | client label => exact ⟨_, (act_step hnext).1⟩
  | server label => exact ⟨_, (act_step hnext).1⟩
  | onMessage addr w =>
    simp only [next] at hnext
    split at hnext
    . cases hnext
    . simp only [Option.bind_eq_some_iff] at hnext
      obtain ⟨_, _, hact⟩ := hnext
      exact ⟨_, (act_step hact).1⟩
    . exact ⟨_, (act_step hnext).1⟩
    . exact ⟨_, (act_step hnext).1⟩

theorem link_reachable (h : (system program).Reachable s) : Link.system.Reachable s.link := by
  induction h with
  | init hinit => exact .init hinit.1
  | step _ _ hstep ih =>
    obtain ⟨_, hlink⟩ := link_step hstep
    exact .step ih trivial hlink

-- no message waits to be handed over to the loop of the server
def NoneQueued (e : Endpoint) : Prop :=
  ∀ task ∈ e.life.queue, task.isSend = false

/--
What the steps do to the end of the server.
-/
inductive Stepped (program : EchoServer) (s : Echo) (a : Label) (s' : Echo) : Prop where
  | client : s'.server = s.server → s'.onMessage = s.onMessage → Stepped program s a s'
  | loop : s'.server.kept = s.server.kept → s'.server.consumed = s.server.consumed →
    (s'.server.conn.state_ = .kConnected → s.server.conn.state_ = .kConnected) → NoneQueued s'.server →
    (s'.onMessage = s.onMessage ∧ s'.server.inputBuffer.toQueue = s.server.inputBuffer.toQueue
      ∨ s.onMessage = .idle ∧ s'.onMessage = .retrieveAllAsString) →
    Stepped program s a s'
  | retrieveAllAsString : s.onMessage = .retrieveAllAsString →
    s'.onMessage = .send s.server.inputBuffer.toQueue → s'.server.inputBuffer.toQueue = [] →
    s'.server.consumed = s.server.consumed ++ s.server.inputBuffer.toQueue →
    s'.server.kept = s.server.kept → s'.server.life = s.server.life → Stepped program s a s'
  | send {msg : List UInt8} {addr : Addr} {w : WriteResult} : a = .onMessage addr w → s.onMessage = .send msg →
    s'.onMessage = .afterSend program →
    s'.server.kept = s.server.kept ++ (Endpoint.given s.server.life (.send true addr msg w)).toList →
    s'.server.consumed = s.server.consumed → s'.server.inputBuffer = s.server.inputBuffer →
    NoneQueued s'.server → Stepped program s a s'
  | shutdown : s.onMessage = .shutdown → s'.onMessage = .idle → s'.server.kept = s.server.kept →
    s'.server.consumed = s.server.consumed → s'.server.inputBuffer = s.server.inputBuffer →
    s'.server.conn.state_ ≠ .kConnected → NoneQueued s'.server → Stepped program s a s'

end Echo

namespace Endpoint

variable {e e' : Endpoint} {label : Life.Label}

theorem next_life (hnext : e.next (.life label) = some e')
    : e.life.next label = some e'.life ∧ e'.kept = e.kept ++ (given e.life label).toList
        ∧ e'.consumed = e.consumed ∧ e'.inputBuffer = e.inputBuffer := by
  simp only [next, Option.map_eq_some_iff] at hnext
  obtain ⟨life, hlife, rfl⟩ := hnext
  exact ⟨hlife, rfl, rfl, rfl⟩

theorem next_handleRead {result : WordBuffer.Readv} (hnext : e.next (.handleRead result) = some e')
    : (∃ n, e.life.next (.callback n (.accepted 0)) = some e'.life) ∧ e'.kept = e.kept
        ∧ e'.consumed = e.consumed := by
  simp only [next, handleRead, Option.bind_eq_some_iff] at hnext
  obtain ⟨⟨inputBuffer, n, _⟩, _, hnext⟩ := hnext
  split at hnext
  . simp only [Option.map_eq_some_iff] at hnext
    obtain ⟨life, hlife, rfl⟩ := hnext
    cases result with
    | failed errno => exact ⟨⟨n, hlife⟩, rfl, rfl⟩
    | received bytes => exact ⟨⟨n, hlife⟩, rfl, rfl⟩
  . cases hnext

-- nothing is given to an end whose user does not send and has not sent from another thread
theorem given_eq_none (hqueued : Echo.NoneQueued e) (huser : Echo.ofUser (.life label) = false)
    : given e.life label = none := by
  cases label with
  | send => cases huser
  | runFunctor message w =>
    have hsending : sending e.life (.runFunctor message w) = none := by
      simp only [sending]
      split
      . next functors heq =>
        have hmem : _ ∈ e.life.queue := List.mem_append_left _ (heq ▸ List.mem_cons_self)
        exact absurd (hqueued _ hmem) (by simp [TcpConnection.Task.isSend])
      . rfl
    rw [given, hsending, Option.bind_none]
  | _ => rfl

theorem given_send {life : Life} {addr : Addr} {msg message : List UInt8} {w : WriteResult}
    (hgiven : given life (.send true addr msg w) = some message) : message = msg := by
  simp only [given, sending, Option.bind_eq_some_iff] at hgiven
  obtain ⟨⟨_, _⟩, hsending, hgiven⟩ := hgiven
  split at hsending
  . simp only [Option.some.injEq, Prod.mk.injEq] at hsending
    split at hgiven
    . cases hgiven
    . rw [Option.some.injEq] at hgiven
      rw [← hgiven, hsending.1]
  . cases hsending

theorem connected_of_given {life : Life} {addr : Addr} {msg message : List UInt8} {w : WriteResult}
    (hgiven : given life (.send true addr msg w) = some message) : life.conn.state_ = .kConnected := by
  simp only [given, sending, Option.bind_eq_some_iff] at hgiven
  obtain ⟨_, hsending, _⟩ := hgiven
  split at hsending
  . next hstate => exact hstate
  . cases hsending

theorem next_retrieveAllAsString (h : e.Inv) (hnext : e.next (.call .retrieveAllAsString) = some e')
    : e'.inputBuffer.toQueue = [] ∧ e'.consumed = e.consumed ++ e.inputBuffer.toQueue ∧ e'.kept = e.kept
        ∧ e'.life = e.life := by
  have hvalid := h.inputBuffer.valid
  simp only [next, Option.map_eq_some_iff] at hnext
  obtain ⟨inputBuffer, hcall, rfl⟩ := hnext
  rw [WordBuffer.calls, LTS.guarded_step, Option.filter_eq_some_iff] at hcall
  obtain ⟨_, hcall, _⟩ := hcall
  rw [WordBuffer.Call.next, hvalid.retrieveAllAsString_eq, Option.map_some, Option.some.injEq] at hcall
  have hempty : inputBuffer.toQueue = [] := by
    rw [← hcall]
    exact hvalid.toQueue_retrieveAll
  refine ⟨hempty, ?_, rfl, rfl⟩
  dsimp only
  rw [hempty, List.length_nil, Nat.sub_zero, List.take_length]

theorem queue_of_calm {s : Life} (label : Life.Label) (h : e.Inv) (hqueued : Echo.NoneQueued e)
    (hqueues : label.queuesMessage = false) (hstep : Life.system.step e.life label = some s)
    : (s.conn.state_ = .kConnected → e.conn.state_ = .kConnected) ∧ ∀ task ∈ s.queue, task.isSend = false := by
  have hcalm := h.base.calm hqueues hstep
  refine ⟨hcalm.state_, fun task hmem => ?_⟩
  by_contra hsend
  rw [Bool.not_eq_false] at hsend
  rw [hqueued task (hcalm.queue task hmem hsend)] at hsend
  cases hsend

theorem queuesMessage_of_ofUser (huser : Echo.ofUser (.life label) = false) : label.queuesMessage = false := by
  cases label with
  | send => cases huser
  | _ => rfl

end Endpoint

namespace Echo

variable {program : EchoServer} {s s' : Echo} {a : Label}

theorem stepped_loop {label : Endpoint.Label} (hinv : s.link.Inv) (hqueued : NoneQueued s.server)
    (henabled : s.enabled (.server label) = true) (hacted : Link.Acted s.link s'.link (.server, label))
    (hcalled : s'.onMessage = called s.onMessage label) : Stepped program s (.server label) s' := by
  simp only [enabled, Bool.and_eq_true, Bool.not_eq_true', Bool.or_eq_true, decide_eq_true_eq] at henabled
  obtain ⟨huser, hidle⟩ := henabled
  have hend : s.server.Inv := hinv.ends .server
  have hnext : s.server.next label = some s'.server := hacted.next
  have hlabel : s.server.enabled label = true := hacted.enabled
  cases label with
  | call c => cases huser
  | life label =>
    obtain ⟨hlife, hkept, hconsumed, hbuffer⟩ := Endpoint.next_life hnext
    simp only [Endpoint.enabled, Bool.and_eq_true] at hlabel
    obtain ⟨hstate, hqueue⟩ := Endpoint.queue_of_calm label hend hqueued (Endpoint.queuesMessage_of_ofUser huser)
      (LTS.guarded_step.mpr ⟨hlabel.1.1, hlife⟩)
    rw [Endpoint.given_eq_none hqueued huser, Option.toList_none, List.append_nil] at hkept
    refine .loop hkept hconsumed hstate hqueue (.inl ⟨hcalled, ?_⟩)
    exact congrArg WordBuffer.toQueue hbuffer
  | handleRead result =>
    obtain ⟨⟨n, hlife⟩, hkept, hconsumed⟩ := Endpoint.next_handleRead hnext
    obtain ⟨hstate, hqueue⟩ := Endpoint.queue_of_calm (.callback n (.accepted 0)) hend hqueued rfl
      (LTS.guarded_step.mpr ⟨by simp [Life.enabled, WriteResult.fits], hlife⟩)
    have hidle : s.onMessage = .idle := by
      simpa [ofOtherThread] using hidle
    refine .loop hkept hconsumed hstate hqueue ?_
    by_cases hbytes : Endpoint.arrived (.handleRead result) = []
    . left
      have hinput : s'.server.consumed ++ s'.server.inputBuffer.toQueue = s'.server.received := hacted.inv.input
      have hreceived : s'.server.received = s.server.received ++ Endpoint.arrived (.handleRead result) :=
        hacted.moved.received
      rw [hreceived, hbytes, List.append_nil, hconsumed, ← hend.input, List.append_cancel_left_eq]
        at hinput
      refine ⟨?_, hinput⟩
      rw [hcalled]
      cases result with
      | failed errno => rfl
      | received bytes => exact if_pos hbytes
    . refine .inr ⟨hidle, ?_⟩
      rw [hcalled]
      cases result with
      | failed errno => exact absurd rfl hbytes
      | received bytes => exact if_neg hbytes

theorem stepped (hinv : s.link.Inv) (hqueued : NoneQueued s.server)
    (hstep : (system program).step s a = some s') : Stepped program s a s' := by
  obtain ⟨henabled, hnext⟩ := LTS.guarded_step.mp hstep
  have hend : s.server.Inv := hinv.ends .server
  cases a with
  | client label =>
    obtain ⟨hact, hsame⟩ := act_step hnext
    exact .client (hinv.acted hact).kept hsame
  | server label =>
    obtain ⟨hact, hcalled⟩ := act_step hnext
    exact stepped_loop hinv hqueued henabled (hinv.acted hact) hcalled
  | onMessage addr w =>
    simp only [next] at hnext
    split at hnext
    . cases hnext
    . next hmessage =>
      rw [hend.inputBuffer.valid.retrieveAllAsString_eq, Option.bind_some] at hnext
      obtain ⟨hact, hsent⟩ := act_step hnext
      obtain ⟨hempty, hconsumed, hkept, hlife⟩ :=
        Endpoint.next_retrieveAllAsString hend (hinv.acted hact).next
      exact .retrieveAllAsString hmessage hsent hempty hconsumed hkept hlife
    . next msg hmessage =>
      obtain ⟨hact, hafter⟩ := act_step hnext
      have hacted := hinv.acted hact
      obtain ⟨hlife, hkept, hconsumed, hbuffer⟩ := Endpoint.next_life hacted.next
      have hlabel := hacted.enabled
      simp only [Endpoint.enabled, Bool.and_eq_true] at hlabel
      obtain ⟨_, hqueue⟩ := Endpoint.queue_of_calm (.send true addr msg w) hend hqueued rfl
        (LTS.guarded_step.mpr ⟨hlabel.1.1, hlife⟩)
      exact .send rfl hmessage hafter hkept hconsumed hbuffer hqueue
    . next hmessage =>
      obtain ⟨hact, hidle⟩ := act_step hnext
      have hacted := hinv.acted hact
      obtain ⟨hlife, hkept, hconsumed, hbuffer⟩ := Endpoint.next_life hacted.next
      obtain ⟨_, hqueue⟩ := Endpoint.queue_of_calm (.shutdown true) hend hqueued rfl
        (LTS.guarded_step.mpr ⟨rfl, hlife⟩)
      refine .shutdown hmessage hidle ?_ hconsumed hbuffer ?_ hqueue
      . exact hkept.trans (List.append_nil _)
      . simp only [Life.next, Option.some.injEq] at hlife
        obtain ⟨_, _, heq, _, _, _, _, hstate⟩ :=
          TcpConnection.shutdown_spec TcpConnection.Task.own true s.server.life.conn s.server.life.loop
        have hconn : s'.server.conn = (s.server.life.conn.shutdown .own true s.server.life.loop).1 := by
          rw [Echo.server, Endpoint.conn, ← hlife]
          rfl
        rw [hconn, heq, hstate]
        split
        . exact fun h => by cases h
        . next hnot => exact hnot

/--
What the server has kept of the messages that `onMessage` has taken out is in their order, and between two calls
of `onMessage` nothing waits in the input buffer.
-/
structure Inv (s : Echo) : Prop where
  queued : NoneQueued s.server
  answered : ∃ before, s.server.consumed = before ++ s.onMessage.msg ∧ s.server.kept.flatten.Sublist before
  empty : s.onMessage ≠ .retrieveAllAsString → s.server.inputBuffer.toQueue = []

theorem Inv.init (h : (system program).init s) : s.Inv := by
  obtain ⟨hends, hidle⟩ := h
  obtain ⟨hlife, hbuffer, hkept, _, hconsumed, _⟩ := hends .server
  refine ⟨?_, ⟨[], ?_, ?_⟩, fun _ => ?_⟩
  . intro task hmem
    rw [hlife.conn.2.2.2.2 task hmem]
    rfl
  . rw [server, hconsumed, hidle]
    rfl
  . rw [server, hkept]
    exact List.nil_sublist _
  . rw [server, hbuffer]
    rfl

theorem msg_afterSend (program : EchoServer) : (OnMessage.afterSend program).msg = [] := by
  cases program <;> rfl

theorem Inv.step (h : s.Inv) (hstepped : Stepped program s a s') : s'.Inv := by
  obtain ⟨hqueued, ⟨before, hconsumed, hkept⟩, hempty⟩ := h
  cases hstepped with
  | client hserver hmessage =>
    rw [← hserver] at hqueued hconsumed hkept hempty
    rw [← hmessage] at hconsumed hempty
    exact ⟨hqueued, ⟨before, hconsumed, hkept⟩, hempty⟩
  | loop hkept' hconsumed' _ hqueued' hmessage =>
    rw [← hkept'] at hkept
    rw [← hconsumed'] at hconsumed
    obtain ⟨hmessage, hbuffer⟩ | ⟨hidle, hmessage⟩ := hmessage
    . rw [← hmessage] at hconsumed hempty
      refine ⟨hqueued', ⟨before, hconsumed, hkept⟩, ?_⟩
      rw [hbuffer]
      exact hempty
    . rw [hidle] at hconsumed
      refine ⟨hqueued', ⟨before, ?_, hkept⟩, fun hne => absurd hmessage hne⟩
      rw [hmessage]
      exact hconsumed
  | retrieveAllAsString hmessage hsends hempty' hconsumed' hkept' hlife =>
    rw [hmessage] at hconsumed
    refine ⟨?_, ⟨before, ?_, hkept' ▸ hkept⟩, fun _ => hempty'⟩
    . rw [NoneQueued, hlife]
      exact hqueued
    . rw [hconsumed', hconsumed, hsends, OnMessage.msg, OnMessage.msg, List.append_nil]
  | @send msg addr w _ hmessage hafter hkept' hconsumed' hbuffer hqueued' =>
    have hempty' := hempty (by simp [hmessage])
    rw [hmessage] at hconsumed
    refine ⟨hqueued', ⟨before ++ msg, ?_, ?_⟩, fun _ => by rw [hbuffer, hempty']⟩
    . rw [hconsumed', hconsumed, hafter, msg_afterSend, List.append_nil]
      rfl
    . rw [hkept', List.flatten_append]
      refine hkept.append ?_
      cases hgiven : Endpoint.given s.server.life (.send true addr msg w) with
      | none => exact List.nil_sublist _
      | some message =>
        rw [Endpoint.given_send hgiven]
        simp
  | shutdown hmessage hidle hkept' hconsumed' hbuffer _ hqueued' =>
    have hempty' := hempty (by simp [hmessage])
    rw [hmessage] at hconsumed
    refine ⟨hqueued', ⟨before, ?_, hkept' ▸ hkept⟩, fun _ => by rw [hbuffer, hempty']⟩
    rw [hconsumed', hconsumed, hidle]
    rfl

theorem inv_reachable (h : (system program).Reachable s) : s.Inv := by
  induction h with
  | init hinit => exact Inv.init hinit
  | step hs _ hstep ih => exact ih.step (stepped (Link.inv_reachable (link_reachable hs)) ih.queued hstep)

-- what the client has received has been kept by the server
theorem prefix_received (h : s.link.Inv) : (s.link.ends .client).received <+: s.server.kept.flatten := by
  have hstream := (h.ends .server).stream
  rw [server, ← hstream]
  exact (h.delivered .server).trans (List.prefix_append _ _)

theorem prefix_consumed (h : s.link.Inv)
    : s.server.consumed <+: (s.link.ends .client).kept.flatten := by
  have hstream := (h.ends .client).stream
  have hinput := (h.ends .server).input
  rw [← hstream]
  refine (List.prefix_append _ s.server.inputBuffer.toQueue).trans ?_
  rw [server, hinput]
  exact (h.delivered .client).trans (List.prefix_append _ _)

/--
Whatever the writes report and however the steps interleave, the client receives only what it has sent, in the
order in which it has sent it.
-/
theorem echo_sublist (program : EchoServer) (s : Echo) (h : (system program).Reachable s)
    : (s.link.ends .client).received.Sublist (s.link.ends .client).kept.flatten := by
  have hlink := Link.inv_reachable (link_reachable h)
  obtain ⟨before, hconsumed, hkept⟩ := (inv_reachable h).answered
  have hbefore : before <+: s.server.consumed := ⟨s.onMessage.msg, hconsumed.symm⟩
  exact (prefix_received hlink).sublist.trans
    (hkept.trans (hbefore.sublist.trans (prefix_consumed hlink).sublist))

/--
The connection is up when `onMessage` sends, and the direct write does not report that the peer is gone.
-/
def clean (s : Echo) : Label → Bool
  | .onMessage _ w =>
    match s.onMessage with
    | .send _ => s.server.conn.state_ = .kConnected && !s.server.conn.mayMiss w
    | .idle | .retrieveAllAsString | .shutdown => true
  | .client _ | .server _ => true

theorem given_clean {life : Life} {addr : Addr} {msg : List UInt8} {w : WriteResult}
    (hstate : life.conn.state_ = .kConnected) (hfault : life.conn.mayMiss w = false)
    : Endpoint.given life (.send true addr msg w) = some msg := by
  simp [Endpoint.given, Endpoint.sending, hstate, hfault]

theorem kept_step (h : s.server.consumed = s.server.kept.flatten ++ s.onMessage.msg) (hclean : s.clean a = true)
    (hstepped : Stepped program s a s') : s'.server.consumed = s'.server.kept.flatten ++ s'.onMessage.msg := by
  cases hstepped with
  | client hserver hmessage =>
    rw [hserver, hmessage]
    exact h
  | loop hkept hconsumed _ _ hmessage =>
    rw [hkept, hconsumed, h]
    obtain ⟨hmessage, _⟩ | ⟨hidle, hmessage⟩ := hmessage
    . rw [hmessage]
    . rw [hidle, hmessage]
      rfl
  | retrieveAllAsString hmessage hsends _ hconsumed hkept _ =>
    rw [hconsumed, hkept, h, hmessage, hsends, OnMessage.msg, OnMessage.msg, List.append_nil]
  | @send msg addr w hlabel hmessage hafter hkept hconsumed _ _ =>
    subst hlabel
    simp only [clean, hmessage, Bool.and_eq_true, decide_eq_true_eq, Bool.not_eq_true'] at hclean
    obtain ⟨hstate, hfault⟩ := hclean
    rw [given_clean hstate hfault] at hkept
    rw [hconsumed, hkept, h, hmessage, hafter, msg_afterSend]
    simp [OnMessage.msg]
  | shutdown hmessage hidle hkept hconsumed _ _ _ =>
    rw [hconsumed, hkept, h, hmessage, hidle]
    rfl

theorem kept_reachable (h : (system program).ReachableBy (fun s a => s.clean a = true) s)
    : s.server.consumed = s.server.kept.flatten ++ s.onMessage.msg := by
  induction h with
  | init hinit =>
    obtain ⟨hends, hidle⟩ := hinit
    obtain ⟨_, _, hkept, _, hconsumed, _⟩ := hends .server
    rw [server, hconsumed, hkept, hidle]
    rfl
  | step hs hclean hstep ih =>
    have hreachable := hs.reachable
    have hlink := Link.inv_reachable (link_reachable hreachable)
    exact kept_step ih hclean (stepped hlink (inv_reachable hreachable).queued hstep)

/--
As long as no message is given up, all that the client has sent is back, on its way back, in the server, or on its
way there.
-/
theorem echo_conserves (program : EchoServer) (s : Echo)
    (h : (system program).ReachableBy (fun s a => s.clean a = true) s)
    : (s.link.ends .client).received
          ++ (s.link.underway .server ++ s.server.conn.outputBuffer.readable)
          ++ (s.onMessage.msg ++ s.server.inputBuffer.toQueue)
          ++ (s.link.underway .client ++ (s.link.ends .client).conn.outputBuffer.readable)
        = (s.link.ends .client).kept.flatten := by
  have hlink := Link.inv_reachable (link_reachable h.reachable)
  have hback := hlink.received_underway .server
  have hforth := hlink.received_underway .client
  have hinput : s.server.consumed ++ s.server.inputBuffer.toQueue = (s.link.ends .server).received :=
    (hlink.ends .server).input
  rw [← hforth]
  simp only [Side.other] at hback ⊢
  rw [← hinput, kept_reachable h]
  simp only [server, ← hback, List.append_assoc]

/--
`testserver.cc` sends in its first `onMessage` only, since it calls `shutdown()` behind it.
-/
structure Once (s : Echo) : Prop where
  first : s.server.kept.flatten <+: s.server.consumed
  once : s.server.kept.length ≤ 1
  up : s.server.conn.state_ = .kConnected → s.onMessage ≠ .shutdown →
    s.server.kept = [] ∧ s.server.consumed = s.onMessage.msg

theorem Once.init (h : (system .testserver).init s) : s.Once := by
  obtain ⟨hends, hidle⟩ := h
  obtain ⟨_, _, hkept, _, hconsumed, _⟩ := hends .server
  refine ⟨?_, ?_, fun _ _ => ⟨hkept, ?_⟩⟩
  . rw [server, hkept]
    exact List.nil_prefix
  . rw [server, hkept]
    exact Nat.zero_le _
  . rw [server, hconsumed, hidle]
    rfl

theorem Once.step (h : s.Once) (hstepped : Stepped .testserver s a s') : s'.Once := by
  obtain ⟨hfirst, honce, hup⟩ := h
  cases hstepped with
  | client hserver hmessage =>
    rw [← hserver] at hfirst honce hup
    rw [← hmessage] at hup
    exact ⟨hfirst, honce, hup⟩
  | loop hkept hconsumed hstate _ hmessage =>
    rw [← hkept, ← hconsumed] at hfirst
    rw [← hkept] at honce
    refine ⟨hfirst, honce, fun hconnected hne => ?_⟩
    rw [hkept, hconsumed]
    obtain ⟨hmessage, _⟩ | ⟨hidle, hmessage⟩ := hmessage
    . rw [hmessage] at hne ⊢
      exact hup (hstate hconnected) hne
    . rw [hmessage]
      have hbefore := hup (hstate hconnected) (by simp [hidle])
      rw [hidle] at hbefore
      exact hbefore
  | retrieveAllAsString hmessage hsends _ hconsumed hkept hlife =>
    rw [← hkept] at hfirst honce
    refine ⟨?_, honce, fun hconnected _ => ?_⟩
    . rw [hconsumed]
      exact hfirst.trans (List.prefix_append _ _)
    . have hconn : s'.server.conn = s.server.conn := congrArg Life.conn hlife
      rw [hconn] at hconnected
      have hbefore := hup hconnected (by simp [hmessage])
      rw [hmessage] at hbefore
      rw [hkept, hconsumed, hbefore.2, hsends]
      exact ⟨hbefore.1, List.nil_append _⟩
  | @send msg addr w _ hmessage hafter hkept hconsumed _ _ =>
    have hnot : ¬s'.onMessage ≠ .shutdown := by
      rw [hafter]
      exact fun hne => hne rfl
    cases hgiven : Endpoint.given s.server.life (.send true addr msg w) with
    | none =>
      rw [hgiven, Option.toList_none, List.append_nil] at hkept
      rw [← hkept, ← hconsumed] at hfirst
      rw [← hkept] at honce
      exact ⟨hfirst, honce, fun _ hne => absurd hne hnot⟩
    | some message =>
      have hconnected := Endpoint.connected_of_given hgiven
      obtain ⟨hnone, hall⟩ := hup hconnected (by simp [hmessage])
      rw [hmessage] at hall
      rw [hgiven, hnone, Endpoint.given_send hgiven] at hkept
      refine ⟨?_, ?_, fun _ hne => absurd hne hnot⟩
      . rw [hkept, hconsumed, hall]
        simp [OnMessage.msg]
      . rw [hkept]
        exact Nat.le_refl 1
  | shutdown hmessage hidle hkept hconsumed _ hstate _ =>
    rw [← hkept, ← hconsumed] at hfirst
    rw [← hkept] at honce
    exact ⟨hfirst, honce, fun hconnected => absurd hconnected hstate⟩

theorem once_reachable (h : (system .testserver).Reachable s) : s.Once := by
  induction h with
  | init hinit => exact Once.init hinit
  | step hs _ hstep ih =>
    have hlink := Link.inv_reachable (link_reachable hs)
    exact ih.step (stepped hlink (inv_reachable hs).queued hstep)

/--
`testserver.cc` answers at most one message, and in every run the answer is what the client has sent first.
-/
theorem testserver_answers_once (s : Echo) (h : (system .testserver).Reachable s)
    : (s.link.ends .client).received <+: (s.link.ends .client).kept.flatten ∧ s.server.kept.length ≤ 1 := by
  have hlink := Link.inv_reachable (link_reachable h)
  obtain ⟨hfirst, honce, _⟩ := once_reachable h
  exact ⟨(prefix_received hlink).trans (hfirst.trans (prefix_consumed hlink)), honce⟩

def opened : Echo where
  link := Link.opened
  onMessage := .idle

theorem opened_init (program : EchoServer) : (system program).init opened :=
  ⟨Link.opened_init, rfl⟩

-- the server reads two of three bytes and takes them out
def request : List Label :=
  [.client (.life (.send true 0 [1, 2, 3] (.accepted 3))), .server (.life .swap), .server (.life .endFunctors),
    .server (.life (.poll (some EPOLLIN))), .server (.life .handleEvent), .server (.handleRead (.received [1, 2])),
    .onMessage 0 (.accepted 0)]

-- the first byte of the answer arrives
def answer : List Label :=
  [.client (.life .swap), .client (.life .endFunctors), .client (.life (.poll (some EPOLLIN))),
    .client (.life .handleEvent), .client (.handleRead (.received [1]))]

set_option maxRecDepth 20000 in
def answered : Echo :=
  ((system .muduoServer).runChecked clean opened (request ++ [.onMessage 0 (.accepted 1)] ++ answer)).get
    (by decide +kernel)

theorem answered_reachable : (system .muduoServer).ReachableBy (fun s a => s.clean a = true) answered :=
  LTS.ReachableBy.runChecked (fun _ _ => id) (.init (opened_init _)) (Option.some_get _).symm

theorem echo_sublist_answered
    : (answered.link.ends .client).received.Sublist (answered.link.ends .client).kept.flatten :=
  echo_sublist .muduoServer answered answered_reachable.reachable

set_option maxRecDepth 20000 in
-- the second byte waits in the output buffer of the server, and the third is on its way there
theorem echo_conserves_answered
    : (answered.link.ends .client).received = [1] ∧ answered.server.conn.outputBuffer.readable = [2]
        ∧ (answered.link.ends .client).received
            ++ (answered.link.underway .server ++ answered.server.conn.outputBuffer.readable)
            ++ (answered.onMessage.msg ++ answered.server.inputBuffer.toQueue)
            ++ (answered.link.underway .client ++ (answered.link.ends .client).conn.outputBuffer.readable)
          = (answered.link.ends .client).kept.flatten :=
  ⟨by decide +kernel, by decide +kernel, echo_conserves .muduoServer answered answered_reachable⟩

set_option maxRecDepth 20000 in
def answeredOnce : Echo :=
  ((system .testserver).run opened
    (request ++ [.onMessage 0 (.accepted 2), .onMessage 0 (.accepted 0)] ++ answer)).get (by decide +kernel)

set_option maxRecDepth 20000 in
theorem testserver_answers_once_answeredOnce
    : answeredOnce.server.conn.halfClosed = true
        ∧ (answeredOnce.link.ends .client).received <+: (answeredOnce.link.ends .client).kept.flatten
        ∧ answeredOnce.server.kept.length ≤ 1 := by
  have hreachable : (system .testserver).Reachable answeredOnce :=
    LTS.Reachable.run (.init (opened_init _)) (Option.some_get _).symm
  exact ⟨by decide +kernel, testserver_answers_once answeredOnce hreachable⟩

end Echo

end MyMuduo
