import MyMuduo.Link.Stream
import MyMuduo.Transition.Pipe

/-!
This module contains the delivery over a connection: what one end has kept is with the other, on its way to it,
or in the output buffer, and each direction is a pipe.
-/

namespace MyMuduo

namespace TcpConnection

namespace Life

open Endpoint (sending given)

variable {s s' : Life} {a : Label}

theorem flatten_given (gaveUp : Prop) [Decidable gaveUp] (message : List UInt8)
    : (if gaveUp then none else some message : Option (List UInt8)).toList.flatten
        = if gaveUp then [] else message := by
  split
  . rfl
  . simp

theorem destroyed_step (hstep : system.step s a = some s') (hdestroyed : s.destroyed = true)
    : s'.destroyed = true := by
  obtain ⟨_, hnext⟩ := LTS.guarded_step.mp hstep
  cases a with
  | callback n w =>
    simp only [next] at hnext
    split at hnext
    . cases hnext
    . simp only [Option.map_eq_some_iff] at hnext
      obtain ⟨_, _, rfl⟩ := hnext
      exact hdestroyed
  | runFunctor message w =>
    simp only [next] at hnext
    split at hnext
    . cases hnext
    . simp only [Option.map_eq_some_iff] at hnext
      obtain ⟨_, _, rfl⟩ := hnext
      simp [told, hdestroyed]
  | handleEvent | send =>
    simp only [next, Option.map_eq_some_iff] at hnext
    obtain ⟨_, _, rfl⟩ := hnext
    exact hdestroyed
  | destroyServer isInLoopThread =>
    simp only [next] at hnext
    split at hnext
    . simp only [Option.map_eq_some_iff] at hnext
      obtain ⟨_, _, rfl⟩ := hnext
      rfl
    . simp only [Option.some.injEq] at hnext
      exact hnext ▸ hdestroyed
  | poll | swap | endFunctors | shutdown | forceClose | removeConnectionInLoop | otherChannels =>
    simp only [next, Option.some.injEq] at hnext
    exact hnext ▸ hdestroyed

/--
One step of a connection takes on the message that is `given` to it and nothing else.
-/
theorem Base.advanced (h : s.Base) (hsettled : s.conn.Settled)
    (hfails : ∀ message w, sending s a = some (message, w) → s.conn.halfClosed = true → w = .failed EPIPE)
    (hstep : system.step s a = some s') : Advanced s.conn (given s a).toList.flatten s'.conn := by
  obtain ⟨_, hnext⟩ := LTS.guarded_step.mp hstep
  cases a with
  | callback n w =>
    simp only [next] at hnext
    split at hnext
    . cases hnext
    . simp only [Option.map_eq_some_iff] at hnext
      obtain ⟨⟨conn, loop, notices⟩, hrun, rfl⟩ := hnext
      exact hsettled.runCallback h.toSound hrun
  | runFunctor message w =>
    simp only [next] at hnext
    split at hnext
    . cases hnext
    . next task functors hfunctors =>
      simp only [Option.map_eq_some_iff] at hnext
      obtain ⟨⟨conn, loop, notices⟩, hrun, rfl⟩ := hnext
      have hpopped : Sound s.conn { s.loop with functors := functors } :=
        ⟨h.synced, h.connected, h.closed, h.open_⟩
      by_cases hsends : ∃ addr len, task = .own (.sendInLoop addr len)
      . obtain ⟨addr, len, rfl⟩ := hsends
        have hsending : sending s (.runFunctor message w) = some (message, w) := by
          simp [sending, hfunctors]
        simp only [runTask, Option.map_eq_some_iff, Prod.mk.injEq] at hrun
        obtain ⟨_, hsend, rfl, _, _⟩ := hrun
        rw [given, hsending, Option.bind_some, flatten_given]
        exact hsettled.sendInLoop hpopped.synced (hfails message w hsending) hsend
      . have hnone : sending s (.runFunctor message w) = none := by
          simp only [sending, hfunctors]
          split
          . next heq =>
            rw [List.cons.injEq] at heq
            exact absurd ⟨_, _, heq.1⟩ hsends
          . rfl
        have htask : task ≠ .connectEstablished := by
          rintro rfl
          apply h.tasks
          simp [queue, hfunctors]
        rw [given, hnone]
        exact hsettled.runTask hpopped htask (fun addr len heq => hsends ⟨addr, len, heq⟩) hrun
  | send isInLoopThread addr contents w =>
    simp only [next, Option.map_eq_some_iff] at hnext
    obtain ⟨⟨conn, loop⟩, hsend, rfl⟩ := hnext
    cases isInLoopThread with
    | false =>
      simp only [send, Bool.false_eq_true, if_false] at hsend
      split at hsend <;>
      . simp only [Option.some.injEq, Prod.mk.injEq] at hsend
        exact hsend.1 ▸ hsettled.refl
    | true =>
      simp only [send, if_true] at hsend
      split at hsend
      . next hstate =>
        have hsending : sending s (.send true addr contents w) = some (contents, w) := by
          simp [sending, hstate]
        rw [given, hsending, Option.bind_some, flatten_given]
        exact hsettled.sendInLoop h.synced (hfails contents w hsending) hsend
      . next hstate =>
        simp only [Option.some.injEq, Prod.mk.injEq] at hsend
        have hnone : sending s (.send true addr contents w) = none := by
          simp [sending, hstate]
        rw [given, hnone]
        exact hsend.1 ▸ hsettled.refl
  | shutdown isInLoopThread =>
    simp only [next, Option.some.injEq] at hnext
    exact hnext ▸ hsettled.shutdown isInLoopThread s.loop
  | forceClose isInLoopThread =>
    simp only [next, Option.some.injEq] at hnext
    exact hnext ▸ hsettled.forceClose isInLoopThread s.loop
  | destroyServer isInLoopThread =>
    simp only [next] at hnext
    split at hnext
    . simp only [Option.map_eq_some_iff] at hnext
      obtain ⟨⟨conn, loop, notices⟩, hdestroy, rfl⟩ := hnext
      exact hsettled.connectDestroyed h.synced (fun hup => (h.connected hup).1) hdestroy
    . simp only [Option.some.injEq] at hnext
      exact hnext ▸ hsettled.refl
  | handleEvent =>
    simp only [next, Option.map_eq_some_iff] at hnext
    obtain ⟨_, _, rfl⟩ := hnext
    exact hsettled.refl
  | poll | swap | endFunctors | removeConnectionInLoop | otherChannels =>
    simp only [next, Option.some.injEq] at hnext
    exact hnext ▸ hsettled.refl

end Life

end TcpConnection

namespace WordBuffer

-- the calls of the user take bytes from the front
theorem Inv.takesOut {b b' : WordBuffer} {c : Call} (h : b.Inv) (htakes : Endpoint.takesOut c = true)
    (hstep : calls.step b c = some b')
    : b'.Inv ∧ ∃ n, b'.toQueue = b.toQueue.drop n := by
  rw [calls, LTS.guarded_step, Option.filter_eq_some_iff, decide_eq_true_eq] at hstep
  obtain ⟨hpossible, hnext, hlength⟩ := hstep
  refine ⟨⟨h.next hpossible hnext, hlength⟩, ?_⟩
  have hstring : ∀ {len : UInt64} {result : List UInt8}, b.reteieveAsString len = some (result, b') →
      b'.toQueue = b.toQueue.drop len.toNat := by
    intro len result hcall
    simp only [reteieveAsString, Option.map_eq_some_iff, Prod.mk.injEq] at hcall
    obtain ⟨_, _, _, rfl⟩ := hcall
    exact h.valid.toQueue_retrieve len
  cases c with
  | append data => cases htakes
  | readFd result => cases htakes
  | retrieve len =>
    rw [Call.next, Option.some.injEq] at hnext
    exact ⟨len.toNat, hnext ▸ h.valid.toQueue_retrieve len⟩
  | retrieveAll =>
    rw [Call.next, Option.some.injEq] at hnext
    have hall : b.retrieve b.readableBytes = b.retrieveAll := by
      simp [WordBuffer.retrieve]
    refine ⟨b.toQueue.length, ?_⟩
    rw [List.drop_length, ← hnext, ← hall]
    exact h.valid.toQueue_retrieveAll
  | ensureWriteableBytes len =>
    simp only [Call.possible, decide_eq_true_eq] at hpossible
    obtain ⟨_, hensure, _, hbuffer⟩ := h.valid.ensureWriteableBytes_eq hpossible
    rw [Call.next, hensure, Option.some.injEq] at hnext
    subst hnext
    refine ⟨0, ?_⟩
    rw [toQueue, hbuffer, List.drop_zero]
    exact Buffer.readable_ensureWriteableBytes h.valid.offsets _
  | reteieveAsString len =>
    simp only [Call.next, Option.map_eq_some_iff] at hnext
    obtain ⟨⟨_, _⟩, hcall, rfl⟩ := hnext
    exact ⟨_, hstring hcall⟩
  | retrieveAllAsString =>
    simp only [Call.next, Option.map_eq_some_iff] at hnext
    obtain ⟨⟨_, _⟩, hcall, rfl⟩ := hnext
    exact ⟨_, hstring hcall⟩

end WordBuffer

open TcpConnection (Life)

namespace Endpoint

variable {e e' : Endpoint} {a : Label}

/--
What has been taken on is with the kernel or in the output buffer, and what has been received is with the user
or in the input buffer.
-/
structure Inv (e : Endpoint) : Prop where
  base : e.life.Base
  settled : e.conn.Settled
  stream : e.conn.accepted ++ e.conn.outputBuffer.readable = e.kept.flatten
  inputBuffer : e.inputBuffer.Inv
  input : e.consumed ++ e.inputBuffer.toQueue = e.received

def arrived : Label → List UInt8
  | .handleRead (.received bytes) => bytes
  | .handleRead (.failed _) | .call _ | .life _ => []

def seesEnd : Label → Bool
  | .handleRead (.received bytes) => bytes = []
  | .handleRead (.failed _) | .call _ | .life _ => false

theorem seesEnd_iff : seesEnd a = true ↔ a = .handleRead (.received []) := by
  cases a with
  | handleRead result => cases result <;> simp [seesEnd]
  | call c => simp [seesEnd]
  | life label => simp [seesEnd]

def taken (e : Endpoint) : Label → List UInt8
  | .life a => (given e.life a).toList.flatten
  | .handleRead _ | .call _ => []

/--
What a step of an end adds on both of its sides.
-/
structure Moved (e e' : Endpoint) (a : Label) : Prop where
  conn : e.conn.Advanced (e.taken a) e'.conn
  kept : e'.kept.flatten = e.kept.flatten ++ e.taken a
  received : e'.received = e.received ++ arrived a
  ended : e'.ended = (e.ended || seesEnd a)
  destroyed : e.life.destroyed = true → e'.life.destroyed = true

theorem Inv.init (h : e.Established) : e.Inv := by
  obtain ⟨hlife, hbuffer, hkept, hreceived, hconsumed, _⟩ := h
  obtain ⟨⟨channel, sockfd, writeComplete, highWaterMark, l, hfd, _, hnew, _⟩, _⟩ := id hlife
  simp only [TcpConnection.runTask, Option.map_eq_some_iff, Prod.mk.injEq] at hnew
  obtain ⟨⟨conn, loop⟩, hnew, hconn, _, _⟩ := hnew
  dsimp only at hconn
  rw [hconn] at hnew
  obtain ⟨houtput, hstate, hsocket, hempty, haccepted⟩ := TcpConnection.connectEstablished_new hfd hnew
  have hvalid : e.inputBuffer.Inv := by
    rw [hbuffer]
    exact WordBuffer.inv_new _ (by decide)
  have hqueue : e.inputBuffer.toQueue = [] := by
    rw [hbuffer]
    rfl
  refine ⟨(Life.Base.init hlife).1, ?_, ?_, hvalid, ?_⟩
  . exact fun _ => ⟨houtput.writing, fun _ => hempty⟩
  . rw [Endpoint.conn, haccepted, hempty, hkept]
    rfl
  . rw [hconsumed, hqueue, hreceived]
    rfl

theorem writeResult_sending {s : Life} {message : List UInt8} {w : WriteResult} {label : Life.Label}
    (hsending : sending s label = some (message, w)) : writeResult label = some w := by
  cases label with
  | send isInLoopThread addr contents result =>
    cases isInLoopThread with
    | false => cases hsending
    | true =>
      simp only [sending] at hsending
      split at hsending
      . simp only [Option.some.injEq, Prod.mk.injEq] at hsending
        rw [writeResult, hsending.2]
      . cases hsending
  | runFunctor contents result =>
    simp only [sending] at hsending
    split at hsending
    . simp only [Option.some.injEq, Prod.mk.injEq] at hsending
      rw [writeResult, hsending.2]
    . cases hsending
  | _ => cases hsending

theorem Inv.life_step {label : Life.Label} (h : e.Inv) (henabled : e.enabled (.life label) = true)
    (hnext : e.next (.life label) = some e') : e'.Inv ∧ Moved e e' (.life label) := by
  simp only [next, Option.map_eq_some_iff] at hnext
  obtain ⟨s, hnext, rfl⟩ := hnext
  simp only [enabled, Bool.and_eq_true, Option.all_eq_true] at henabled
  obtain ⟨⟨henabled, _⟩, hwrites⟩ := henabled
  have hstep : Life.system.step e.life label = some s := LTS.guarded_step.mpr ⟨henabled, hnext⟩
  have hfails : ∀ message w, sending e.life label = some (message, w) → e.life.conn.halfClosed = true →
      w = .failed EPIPE := by
    intro message w hsending hclosed
    have hwrite := hwrites w (writeResult_sending hsending)
    simpa [Endpoint.conn, hclosed] using hwrite
  have hadvanced := h.base.advanced h.settled hfails hstep
  have hbase := h.base.step hstep
  refine ⟨⟨hbase, hadvanced.settled, ?_, h.inputBuffer, h.input⟩, hadvanced, ?_, ?_, ?_, ?_⟩
  . have hstream := hadvanced.stream
    rw [show e.life.conn = e.conn from rfl, h.stream] at hstream
    rw [List.flatten_append]
    exact hstream
  . exact List.flatten_append
  . exact (List.append_nil _).symm
  . exact (Bool.or_false _).symm
  . exact Life.destroyed_step hstep

theorem Inv.call_step {c : WordBuffer.Call} (h : e.Inv) (henabled : e.enabled (.call c) = true)
    (hnext : e.next (.call c) = some e') : e'.Inv ∧ Moved e e' (.call c) := by
  simp only [next, Option.map_eq_some_iff] at hnext
  obtain ⟨inputBuffer, hcall, rfl⟩ := hnext
  obtain ⟨hbuffer, n, hqueue⟩ := h.inputBuffer.takesOut henabled hcall
  refine ⟨⟨h.base, h.settled, h.stream, hbuffer, ?_⟩, h.settled.refl, ?_, ?_, ?_, id⟩
  . have htaken : e.inputBuffer.toQueue.length - (e.inputBuffer.toQueue.length - n)
        = min n e.inputBuffer.toQueue.length := by omega
    dsimp only
    rw [hqueue, List.length_drop, htaken, ← List.take_eq_take_min, List.append_assoc, List.take_append_drop]
    exact h.input
  . exact (List.append_nil _).symm
  . exact (List.append_nil _).symm
  . exact (Bool.or_false _).symm

theorem Inv.handleRead_step {result : WordBuffer.Readv} (h : e.Inv)
    (henabled : e.enabled (.handleRead result) = true)
    (hnext : e.next (.handleRead result) = some e') : e'.Inv ∧ Moved e e' (.handleRead result) := by
  simp only [enabled, Bool.and_eq_true, decide_eq_true_eq] at henabled
  obtain ⟨_, hfits⟩ := henabled
  simp only [next, handleRead, Option.bind_eq_some_iff] at hnext
  obtain ⟨⟨inputBuffer, n, saveErrno⟩, hread, hnext⟩ := hnext
  split at hnext
  . next hlength =>
    simp only [Option.map_eq_some_iff] at hnext
    obtain ⟨s, hlife, rfl⟩ := hnext
    have hstep : Life.system.step e.life (.callback n (.accepted 0)) = some s :=
      LTS.guarded_step.mpr ⟨by simp [Life.enabled, WriteResult.fits], hlife⟩
    have hadvanced := h.base.advanced h.settled (fun _ _ hnone _ => by cases hnone) hstep
    have hbase := h.base.step hstep
    have hdestroyed := Life.destroyed_step hstep
    have hstream : s.conn.accepted ++ s.conn.outputBuffer.readable = e.kept.flatten := by
      rw [hadvanced.stream, show e.life.conn = e.conn from rfl, h.stream]
      exact List.append_nil _
    cases result with
    | failed errno =>
      rw [WordBuffer.readFd, Option.some.injEq, Prod.mk.injEq] at hread
      obtain ⟨rfl, _⟩ := hread
      exact ⟨⟨hbase, hadvanced.settled, hstream, h.inputBuffer, h.input⟩, hadvanced,
        (List.append_nil _).symm, (List.append_nil _).symm, (Bool.or_false _).symm, hdestroyed⟩
    | received bytes =>
      obtain ⟨b', heq, hvalid, hqueue⟩ := h.inputBuffer.valid.readFd_received hfits h.inputBuffer.length_add_le
      rw [hread, Option.some.injEq, Prod.mk.injEq] at heq
      obtain ⟨rfl, _⟩ := heq
      refine ⟨⟨hbase, hadvanced.settled, hstream, ⟨hvalid, hlength⟩, ?_⟩, hadvanced, (List.append_nil _).symm,
        rfl, rfl, hdestroyed⟩
      dsimp only
      rw [hqueue, ← List.append_assoc, h.input]
  . cases hnext

theorem Inv.step (h : e.Inv) (henabled : e.enabled a = true) (hnext : e.next a = some e')
    : e'.Inv ∧ Moved e e' a := by
  cases a with
  | handleRead result => exact h.handleRead_step henabled hnext
  | call c => exact h.call_step henabled hnext
  | life label => exact h.life_step henabled hnext

end Endpoint

namespace Link

variable {s s' : Link} {a : Label} {side : Side}

structure Inv (s : Link) : Prop where
  ends : ∀ side, (s.ends side).Inv
  delivered : ∀ side, (s.ends side.other).received <+: (s.ends side).conn.accepted

/--
One end acts, and what it reads is what `arrives`.
-/
structure Acted (s s' : Link) (a : Label) : Prop where
  enabled : (s.ends a.1).enabled a.2 = true
  next : (s.ends a.1).next a.2 = some (s'.ends a.1)
  inv : (s'.ends a.1).Inv
  moved : Endpoint.Moved (s.ends a.1) (s'.ends a.1) a.2
  kept : s'.ends a.1.other = s.ends a.1.other
  arrives : ∀ result, a.2 = .handleRead result → s.arrives a.1 result = true

theorem other_ne (side : Side) : side.other ≠ side := by
  cases side <;> decide

theorem other_other (side : Side) : side.other.other = side := by
  cases side <;> rfl

theorem eq_or_other (side side' : Side) : side' = side ∨ side' = side.other := by
  cases side <;> cases side' <;> decide

theorem Inv.acted (h : s.Inv) (hstep : system.step s a = some s') : Acted s s' a := by
  obtain ⟨henabled, hnext⟩ := LTS.guarded_step.mp hstep
  obtain ⟨actor, label⟩ := a
  simp only [next, Option.map_eq_some_iff] at hnext
  obtain ⟨e, hnext, rfl⟩ := hnext
  simp only [enabled, Bool.and_eq_true] at henabled
  obtain ⟨hend, harrives⟩ := henabled
  obtain ⟨hinv, hmoved⟩ := (h.ends actor).step hend hnext
  have hactor : (s.setEnd actor e).ends actor = e := Function.update_self ..
  refine ⟨hend, ?_, ?_, ?_, Function.update_of_ne (other_ne _) _ _, ?_⟩
  . rw [hactor]
    exact hnext
  . rw [hactor]
    exact hinv
  . rw [hactor]
    exact hmoved
  . rintro result rfl
    exact harrives

-- what is read comes next in what the other side has written
theorem Inv.delivers (h : s.Inv) (hacted : Acted s s' a)
    : (s.ends a.1).received ++ Endpoint.arrived a.2 <+: (s.ends a.1.other).conn.accepted := by
  have hdelivered := h.delivered a.1.other
  rw [other_other] at hdelivered
  obtain ⟨actor, label⟩ := a
  have hnothing : (s.ends actor).received ++ [] <+: (s.ends actor.other).conn.accepted := by
    rw [List.append_nil]
    exact hdelivered
  cases label with
  | call c => exact hnothing
  | life label => exact hnothing
  | handleRead result =>
    have harrives := hacted.arrives result rfl
    cases result with
    | failed errno => exact hnothing
    | received bytes =>
      simp only [arrives] at harrives
      split at harrives
      . next hempty =>
        dsimp only [Endpoint.arrived]
        rw [hempty]
        exact hnothing
      . rw [List.isPrefixOf_iff_prefix, underway, other_other] at harrives
        have happend := List.prefix_iff_eq_append.mp hdelivered
        dsimp only [Endpoint.arrived]
        rw [← happend]
        exact (List.prefix_append_right_inj _).mpr harrives

theorem Inv.step (h : s.Inv) (hstep : system.step s a = some s') : s'.Inv := by
  have hacted := h.acted hstep
  have hdelivers := h.delivers hacted
  have hreceived := hacted.moved.received
  have haccepted := hacted.moved.conn.accepted
  constructor
  . intro side
    obtain rfl | rfl := eq_or_other a.1 side
    . exact hacted.inv
    . rw [hacted.kept]
      exact h.ends _
  . intro side
    obtain rfl | rfl := eq_or_other a.1 side
    . rw [hacted.kept]
      exact (h.delivered a.1).trans haccepted
    . rw [other_other, hacted.kept, hreceived]
      exact hdelivers

theorem inv_reachable (h : system.Reachable s) : s.Inv := by
  refine LTS.Reachable.invariant Inv ?_ (fun _ _ _ => Inv.step) h
  intro s hinit
  refine ⟨fun side => Endpoint.Inv.init (hinit side), fun side => ?_⟩
  rw [(hinit side.other).2.2.2.1]
  exact List.nil_prefix

theorem Inv.received_underway (h : s.Inv) (side : Side)
    : (s.ends side.other).received ++ s.underway side ++ (s.ends side).conn.outputBuffer.readable
        = (s.ends side).kept.flatten := by
  have happend := List.prefix_iff_eq_append.mp (h.delivered side)
  rw [underway, happend]
  exact (h.ends side).stream

/--
Nothing is lost, doubled or reordered: what one side has taken on is what the user of the other has taken out,
what waits there in the input buffer, what is underway, and what waits here in the output buffer.
-/
theorem conservation (s : Link) (h : system.Reachable s) (side : Side)
    : (s.ends side.other).consumed ++ (s.ends side.other).inputBuffer.toQueue ++ s.underway side
          ++ (s.ends side).conn.outputBuffer.readable
        = (s.ends side).kept.flatten := by
  have hinv := inv_reachable h
  rw [(hinv.ends side.other).input]
  exact hinv.received_underway side

end Link

namespace Endpoint

-- the end of the stream may be seen before all of it has been sent
def broken (e : Endpoint) : Bool :=
  e.life.destroyed || e.conn.state_ = .kDisconnected && e.conn.outputBuffer.readable ≠ []

variable {e e' : Endpoint} {a : Label}

theorem Moved.broken (h : Moved e e' a) (hbroken : e.broken = true) : e'.broken = true := by
  simp only [Endpoint.broken, Bool.or_eq_true, Bool.and_eq_true, decide_eq_true_eq] at hbroken ⊢
  cases hbroken with
  | inl hdestroyed => exact .inl (h.destroyed hdestroyed)
  | inr hdown =>
    obtain ⟨hstate, hbuffer, _⟩ := h.conn.down hdown.1
    rw [hbuffer]
    exact .inr ⟨hstate, hdown.2⟩

end Endpoint

namespace Link

variable {s s' : Link} {a : Label} {side : Side}

/--
The direction from `side` to the other one.
-/
def pipe (side : Side) (s : Link) : Pipe UInt8 where
  sent := (s.ends side).kept.flatten
  delivered := (s.ends side.other).received
  closed := (s.ends side).conn.halfClosed
  broken := (s.ends side).broken
  ended := (s.ends side.other).ended

theorem Acted.pipe_write (hacted : Acted s s' a)
    : (Pipe.system UInt8).step (s.pipe a.1)
          (.write ((s.ends a.1).taken a.2) (s'.ends a.1).conn.halfClosed (s'.ends a.1).broken)
        = some (s'.pipe a.1) := by
  have hclosed := hacted.moved.conn.closed
  rw [Pipe.step_write]
  . have hclosed' : ((s.ends a.1).conn.halfClosed || (s'.ends a.1).conn.halfClosed)
        = (s'.ends a.1).conn.halfClosed := by
      rw [Bool.or_eq_right_iff_imp]
      exact fun hhalf => (hclosed hhalf).1
    have hbroken' : ((s.ends a.1).broken || (s'.ends a.1).broken) = (s'.ends a.1).broken := by
      rw [Bool.or_eq_right_iff_imp]
      exact hacted.moved.broken
    simp only [pipe, hclosed', hbroken', hacted.kept, hacted.moved.kept]
  . exact fun hhalf => (hclosed hhalf).2.2

-- who sees the end of a pipe that is not broken has seen all of it
theorem Inv.complete (h : s.Inv) (side : Side) (hbroken : (s.ends side).broken = false)
    (hunderway : s.underway side = [])
    (hdown : (s.ends side).conn.halfClosed = true ∨ (s.ends side).life.destroyed = true)
    : (s.ends side).conn.halfClosed = true ∧ (s.ends side.other).received = (s.ends side).kept.flatten := by
  simp only [Endpoint.broken, Bool.or_eq_false_iff, Bool.and_eq_false_iff, decide_eq_false_iff_not, ne_eq,
    Decidable.not_not] at hbroken
  obtain ⟨hdestroyed, hlost⟩ := hbroken
  have hclosed : (s.ends side).conn.halfClosed = true := by
    rw [hdestroyed] at hdown
    simpa using hdown
  have hempty : (s.ends side).conn.outputBuffer.readable = [] := by
    by_cases hstate : (s.ends side).conn.state_ = .kDisconnected
    . exact hlost.resolve_left fun hopen => hopen hstate
    . exact ((h.ends side).settled hstate).2 hclosed
  have hlength := List.drop_eq_nil_iff.mp hunderway
  have hall := (h.delivered side).eq_of_length_le hlength
  refine ⟨hclosed, ?_⟩
  rw [← (h.ends side).stream, hempty, List.append_nil]
  exact hall

theorem Inv.pipe_read (h : s.Inv) (hacted : Acted s s' a)
    : ∃ b, (Pipe.system UInt8).step (s.pipe a.1.other) b = some (s'.pipe a.1.other) := by
  have hread : s'.pipe a.1.other
      = { s.pipe a.1.other with
          delivered := (s.pipe a.1.other).delivered ++ Endpoint.arrived a.2
          ended := (s.pipe a.1.other).ended || Endpoint.seesEnd a.2 } := by
    simp only [pipe, other_other, hacted.kept, hacted.moved.received, hacted.moved.ended]
  rw [hread]
  cases hends : Endpoint.seesEnd a.2 with
  | false =>
    refine ⟨.deliver (Endpoint.arrived a.2).length, ?_⟩
    simp only [Bool.or_false]
    apply Pipe.step_deliver
    simp only [pipe, other_other]
    have hsent := (h.ends a.1.other).stream
    rw [← hsent]
    exact (h.delivers hacted).trans (List.prefix_append _ _)
  | true =>
    refine ⟨.finish, ?_⟩
    obtain ⟨actor, label⟩ := a
    obtain rfl := Endpoint.seesEnd_iff.mp hends
    have harrives := hacted.arrives _ rfl
    simp only [arrives, if_true, Bool.and_eq_true, Bool.or_eq_true, decide_eq_true_eq] at harrives
    rw [Pipe.step_finish]
    . simp [Endpoint.arrived]
    . intro hbroken
      have hcomplete := h.complete actor.other hbroken harrives.1 harrives.2
      exact hcomplete

theorem pipe_init (side : Side) (s : Link) (hinit : system.init s)
    : (Pipe.system UInt8).init (s.pipe side) := by
  obtain ⟨_, _, hkept, _⟩ := hinit side
  obtain ⟨_, _, _, hreceived, _, hended⟩ := hinit side.other
  exact ⟨by rw [pipe, hkept]; rfl, hreceived, hended⟩

theorem pipe_step (side : Side) (s : Link) (a : Label) (s' : Link) (h : system.Reachable s)
    (hstep : system.step s a = some s')
    : s'.pipe side = s.pipe side ∨ ∃ b, (Pipe.system UInt8).step (s.pipe side) b = some (s'.pipe side) := by
  have hinv := inv_reachable h
  have hacted := hinv.acted hstep
  obtain rfl | rfl := eq_or_other a.1 side
  . exact .inr ⟨_, hacted.pipe_write⟩
  . exact .inr (hinv.pipe_read hacted)

/--
Each direction of a connection is a pipe, over every order of the steps of the two ends.
-/
theorem refines_pipe (side : Side) : system.Refines (Pipe.system UInt8) (pipe side) where
  init := pipe_init side
  step := pipe_step side

/--
Who has seen the end has been sent everything, unless the sender went down with bytes in its output buffer or
was destroyed.
-/
theorem complete_at_end (s : Link) (h : system.Reachable s) (side : Side)
    (hended : (s.ends side.other).ended = true) (hbroken : (s.ends side).broken = false)
    : (s.ends side.other).consumed ++ (s.ends side.other).inputBuffer.toQueue = (s.ends side).kept.flatten
        ∧ (s.ends side).conn.halfClosed = true := by
  have hrefines : system.Refines (Pipe.system UInt8) (pipe side) := ⟨pipe_init side, pipe_step side⟩
  have hpipe := hrefines.invariant (fun _ => Pipe.inv_reachable) h
  obtain hlost | ⟨hclosed, hall⟩ := hpipe.ended hended
  . exact absurd hlost (by simp [pipe, hbroken])
  . rw [((inv_reachable h).ends side.other).input]
    exact ⟨hall, hclosed⟩

-- an end on descriptor 7
def fresh : Endpoint where
  life := .established
  inputBuffer := .new (.ofNat Buffer.kInitialSize)
  kept := []
  received := []
  consumed := []
  ended := false

def opened : Link where
  ends _ := fresh

theorem opened_init (side : Side) : (opened.ends side).Established :=
  ⟨Life.established_init, rfl, rfl, rfl, rfl, rfl⟩

-- a message that goes out in two parts, the half-close behind it, and all of it arrives
def exchange : List Label :=
  [(.client, .life (.send true 0 [1, 2, 3] (.accepted 1))), (.client, .life (.shutdown true)),
    (.client, .life .swap), (.client, .life .endFunctors), (.client, .life (.poll (some EPOLLOUT))),
    (.client, .life .handleEvent), (.client, .life (.callback 0 (.accepted 2))),
    (.server, .life .swap), (.server, .life .endFunctors), (.server, .life (.poll (some EPOLLIN))),
    (.server, .life .handleEvent), (.server, .handleRead (.received [1, 2, 3])),
    (.server, .call (.retrieve 2)), (.server, .life .swap), (.server, .life .endFunctors),
    (.server, .life (.poll (some EPOLLIN))), (.server, .life .handleEvent), (.server, .handleRead (.received []))]

set_option maxRecDepth 20000 in
def exchanged : Link :=
  (system.run opened exchange).get (by decide +kernel)

theorem exchanged_reachable : system.Reachable exchanged :=
  LTS.Reachable.run (.init opened_init) (Option.some_get _).symm

set_option maxRecDepth 20000 in
theorem conservation_exchanged
    : (exchanged.ends .server).consumed = [1, 2] ∧ (exchanged.ends .client).kept = [[1, 2, 3]]
        ∧ (exchanged.ends .server).consumed ++ (exchanged.ends .server).inputBuffer.toQueue
            ++ exchanged.underway .client ++ (exchanged.ends .client).conn.outputBuffer.readable
          = (exchanged.ends .client).kept.flatten :=
  ⟨by decide +kernel, by decide +kernel, conservation exchanged exchanged_reachable .client⟩

set_option maxRecDepth 20000 in
theorem complete_at_end_exchanged
    : (exchanged.ends .server).consumed ++ (exchanged.ends .server).inputBuffer.toQueue = [1, 2, 3]
        ∧ (exchanged.ends .client).conn.halfClosed = true := by
  have hkept : (exchanged.ends .client).kept.flatten = [1, 2, 3] := by decide +kernel
  have hcomplete := complete_at_end exchanged exchanged_reachable .client (by decide +kernel) (by decide +kernel)
  rw [hkept] at hcomplete
  exact hcomplete

end Link

end MyMuduo
