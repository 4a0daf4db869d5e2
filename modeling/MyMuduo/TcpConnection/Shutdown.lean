import Mathlib.Data.List.Infix
import MyMuduo.TcpConnection.Calls

/-!
This module contains what a graceful shutdown achieves: the half-close comes after every message that
was accepted, as long as no accepted call of `send` is still on its way when it is made.
-/

namespace MyMuduo

namespace TcpConnection

open EventLoop (Thread)

-- full buffers of the kernel are no error
def WriteResult.noError : WriteResult → Bool
  | .accepted _ => true
  | .failed errno => errno = EWOULDBLOCK

theorem WriteResult.faultError_eq_false {w : WriteResult} (h : WriteResult.noError w = true)
    (c : TcpConnection) : c.faultError w = false := by
  cases w with
  | accepted nwrote => simp [faultError]
  | failed errno =>
    simp only [noError, decide_eq_true_eq] at h
    simp [faultError, h]

def Label.noError {τ : Type} : Label τ → Bool
  | .sendRun _ w | .handleWrite w | .runFunctor w => WriteResult.noError w
  | _ => true

namespace Threads

variable {τ : Type}

/--
No byte is written behind the half-close, and in front of it the kernel has accepted every message
that a call of `send` was accepted with, in the order in which they were processed.
-/
structure Graceful (s : Threads τ) : Prop where
  writes : ∀ pre post, s.conn.socket = pre ++ .shutdownWrite :: post →
    ∀ message nwrote, .write message nwrote ∉ post
  accepted : ∀ pre post, s.conn.socket = pre ++ .shutdownWrite :: post →
    ∀ call bytes, s.contents call = some bytes →
      ∃ before after, s.processed = before ++ (call, bytes) :: after
        ∧ (before ++ [(call, bytes)]).flatMap Prod.snd <+: pre.flatMap SocketCall.accepted

def noneInFlight (s : Threads τ) : Prop :=
  ∀ call message len, ¬s.InFlight none call message len

-- somebody is past the store of `shutdown`
def Disconnecting (s : Threads τ) : Prop :=
  (∃ t, s.callers t = .shutDown) ∨ (∃ call, ⟨.shutdownInLoop, call⟩ ∈ s.queue)
    ∨ .shutdownWrite ∈ s.conn.socket

structure Inv (s : Threads τ) : Prop extends s.Sends, s.conn.Output s.loop where
  stream : s.conn.accepted ++ s.conn.outputBuffer.readable = s.processed.flatMap Prod.snd
  open_ : s.conn.state_ = .kConnected ∨ s.conn.state_ = .kDisconnecting
  covered : ∀ call < s.calls.length, (∃ bytes, (call, bytes) ∈ s.processed)
    ∨ ∃ message len, s.InFlight none call message len
  disconnecting : s.Disconnecting → s.conn.state_ = .kDisconnecting
  drained : s.pc = .drained → s.conn.channel.isWriting = false
  inCall : s.callers .loop ≠ .idle → s.pc ≠ .drained
  closed : .shutdownWrite ∈ s.conn.socket → s.noneInFlight ∧ s.conn.channel.isWriting = false
  halfClose : ∀ pre post, s.conn.socket = pre ++ .shutdownWrite :: post →
    (∀ call ∈ post, call = .shutdownWrite)
      ∧ pre.flatMap SocketCall.accepted = s.processed.flatMap Prod.snd

theorem Inv.graceful {s : Threads τ} (h : s.Inv) : s.Graceful where
  writes := by
    intro pre post heq message nwrote hmem
    have := (h.halfClose pre post heq).1 _ hmem
    simp at this
  accepted := by
    intro pre post heq call bytes hcontents
    have hclosed := (h.closed (by simp [heq])).1
    have hlt : call < s.calls.length := by
      obtain ⟨c, hc, _⟩ := Option.map_eq_some_iff.mp hcontents
      exact (List.getElem?_eq_some_iff.mp hc).1
    cases h.covered call hlt with
    | inl hprocessed =>
      obtain ⟨bytes', hmem⟩ := hprocessed
      have hbytes := h.processed call bytes' hmem
      rw [hcontents, Option.some.injEq] at hbytes
      rw [← hbytes] at hmem
      obtain ⟨before, after, hsplit⟩ := List.append_of_mem hmem
      refine ⟨before, after, hsplit, ?_⟩
      have hprefix : before ++ [(call, bytes)] <+: s.processed := ⟨after, by simp [hsplit]⟩
      rw [(h.halfClose pre post heq).2]
      exact List.IsPrefix.flatMap hprefix Prod.snd
    | inr hin =>
      obtain ⟨message, len, hin⟩ := hin
      exact absurd hin (hclosed call message len)

theorem Inv.init {s : Threads τ} (h : s.Established) : s.Inv := by
  have hsends := Sends.init h
  have hqueue := queue_of_established h
  obtain ⟨⟨_, _, _, _, _, hfd, _, _, hnew⟩, hcallers, hpc, hcalls, hprocessed, _⟩ := h
  obtain ⟨houtput, hstate, hsocket, hempty, haccepted⟩ := connectEstablished_new hfd hnew
  exact
    { hsends, houtput with
      stream := by simp [haccepted, hempty, hprocessed]
      open_ := .inl hstate
      covered := by simp [hcalls]
      disconnecting := by simp [Disconnecting, hcallers, hqueue, hsocket]
      drained := by simp [hpc]
      inCall := by simp [hcallers]
      closed := by simp [hsocket]
      halfClose := by simp [hsocket] }

theorem Inv.callStep {s s' : Threads τ} (h : s.Inv) (hstep : CallStep s s')
    : ∀ call < s'.calls.length, (∃ bytes, (call, bytes) ∈ s'.processed)
      ∨ ∃ message len, s'.InFlight none call message len := by
  intro call hlt
  cases hstep with
  | accept _ _ _ _ calls processed inFlight =>
    rw [calls, List.length_append, List.length_singleton] at hlt
    by_cases hnew : call = s.calls.length
    . right
      refine ⟨_, _, (inFlight _ _ _).mpr (.inl ⟨hnew.symm, rfl, rfl⟩)⟩
    . rw [processed]
      apply (h.covered call (by omega)).imp_right
      intro hin
      obtain ⟨message, len, hin⟩ := hin
      exact ⟨message, len, (inFlight _ _ _).mpr (.inr hin)⟩
  | execute _ _ _ calls processed inFlight =>
    have hopen : s.conn.state_ ≠ .kDisconnected := by
      intro hstate
      simpa [hstate] using h.open_
    rw [if_neg hopen] at processed
    rw [calls] at hlt
    rw [processed]
    cases h.covered call hlt with
    | inl hdone =>
      obtain ⟨bytes, hdone⟩ := hdone
      exact .inl ⟨bytes, List.mem_append_left _ hdone⟩
    | inr hin =>
      obtain ⟨message, len, hin⟩ := hin
      cases (inFlight _ _ _).mp hin with
      | inl hnow =>
        left
        rw [← hnow.1]
        exact ⟨_, List.mem_append_right _ (List.mem_singleton.mpr rfl)⟩
      | inr hlater => exact .inr ⟨message, len, hlater⟩
  | other _ _ calls processed inFlight =>
    rw [calls] at hlt
    rw [processed]
    apply (h.covered call hlt).imp_right
    intro hin
    obtain ⟨message, len, hin⟩ := hin
    exact ⟨message, len, (inFlight _ _ _).mpr hin⟩

-- after the half-close no call is accepted and none is executed
theorem Inv.callStep_closed {s s' : Threads τ} (h : s.Inv) (hstep : CallStep s s')
    (hclosed : .shutdownWrite ∈ s.conn.socket) : s'.noneInFlight ∧ s'.processed = s.processed := by
  have hnone := (h.closed hclosed).1
  cases hstep with
  | accept _ _ hstate =>
    have := h.disconnecting (.inr (.inr hclosed))
    simp [hstate] at this
  | execute _ _ _ _ _ inFlight => exact absurd ((inFlight _ _ _).mpr (.inl ⟨rfl, rfl, rfl⟩)) (hnone _ _ _)
  | other _ _ _ processed inFlight =>
    refine ⟨?_, processed⟩
    intro call message len hin
    exact hnone call message len ((inFlight _ _ _).mp hin)

/--
A step that does not touch the connection.
-/
theorem Inv.same_conn {s s' : Threads τ} (h : s.Inv) (hcalls : CallStep s s') (hsends : s'.Sends)
    (hconn : s'.conn = s.conn) (hpoller : s'.loop.poller = s.loop.poller)
    (hprocessed : s'.processed = s.processed) (hpc : s'.pc = .drained → s.pc = .drained)
    (hinCall : s'.callers .loop ≠ .idle → s'.pc ≠ .drained)
    (hdisconnecting : s'.Disconnecting → s.conn.state_ = .kDisconnecting) : s'.Inv :=
  { hsends with
    synced := by
      rw [hconn, hpoller]
      exact h.synced
    writing := by
      rw [hconn]
      exact h.writing
    stream := by
      rw [hconn, hprocessed]
      exact h.stream
    open_ := by
      rw [hconn]
      exact h.open_
    covered := h.callStep hcalls
    disconnecting := by
      rw [hconn]
      exact hdisconnecting
    drained := by
      rw [hconn]
      intro hdrained
      exact h.drained (hpc hdrained)
    inCall := hinCall
    closed := by
      rw [hconn]
      intro hclosed
      exact ⟨(h.callStep_closed hcalls hclosed).1, (h.closed hclosed).2⟩
    halfClose := by
      rw [hconn, hprocessed]
      exact h.halfClose }

-- how a list that ends in the half-close can be split at one
theorem append_half_close {calls pre post : List SocketCall}
    (h : calls ++ [.shutdownWrite] = pre ++ .shutdownWrite :: post)
    : (pre = calls ∧ post = [])
      ∨ ∃ post', post = post' ++ [.shutdownWrite] ∧ calls = pre ++ .shutdownWrite :: post' := by
  rcases List.eq_nil_or_concat post with hpost | ⟨post', last, hpost⟩
  . subst hpost
    left
    exact ⟨(List.append_inj_left' h rfl).symm, rfl⟩
  . right
    rw [hpost, List.concat_eq_append, ← List.cons_append, ← List.append_assoc] at h
    have hlast := List.append_inj_right' h rfl
    have hcalls := List.append_inj_left' h rfl
    simp only [List.cons.injEq, and_true] at hlast
    exact ⟨post', by simp [hpost, ← hlast], hcalls⟩

/--
The half-close, or nothing while bytes wait.
-/
theorem Inv.shutdownInLoop {s : Threads τ} (h : s.Inv) (hstate : s.conn.state_ = .kDisconnecting)
    (hok : s.conn.channel.isWriting = false → s.noneInFlight)
    : Inv { s with conn := s.conn.shutdownInLoop } := by
  unfold TcpConnection.shutdownInLoop
  split
  . next hwriting =>
    rw [Bool.not_eq_true'] at hwriting
    have hempty : s.conn.outputBuffer.readable = [] := by
      have := h.writing
      simpa [hwriting] using this
    have haccepted : s.conn.socket.flatMap SocketCall.accepted = s.processed.flatMap Prod.snd := by
      rw [← h.stream, hempty, List.append_nil]
      rfl
    exact
      { h with
        stream := by
          rw [← h.stream]
          simp [accepted, SocketCall.accepted]
        disconnecting := fun _ => hstate
        closed := fun _ => ⟨hok hwriting, hwriting⟩
        halfClose := by
          intro pre post heq
          cases append_half_close heq with
          | inl hlast =>
            rw [hlast.1, hlast.2]
            exact ⟨by simp, haccepted⟩
          | inr hearlier =>
            obtain ⟨post', hpost, hsocket⟩ := hearlier
            have hclose := h.halfClose pre post' hsocket
            rw [hpost]
            refine ⟨?_, hclose.2⟩
            intro call hcall
            rw [List.mem_append, List.mem_singleton] at hcall
            exact hcall.elim (hclose.1 call) id }
  . exact h

/--
The loop thread executes the `sendInLoop` of a call in flight. `s₁` is the state in which the call has
left its thread or the queue.
-/
theorem Inv.runSend {s s₁ s' : Threads τ} {call : Nat} {message : Addr} {len : Nat} {w : WriteResult}
    (h : s.Inv) (hin : s.InFlight none call message len)
    (hrun : s₁.runSend call message len w = some s') (hw : WriteResult.noError w = true)
    (hcalls : CallStep s s') (hsends : s'.Sends) (hconn : s₁.conn = s.conn)
    (hmemory : s₁.memory = s.memory) (hpoller : s₁.loop.poller = s.loop.poller)
    (hprocessed : s₁.processed = s.processed) (hpc : s₁.pc ≠ .drained)
    (hdisconnecting : s₁.Disconnecting → s.conn.state_ = .kDisconnecting) : s'.Inv := by
  have hopen : s.conn.state_ ≠ .kDisconnected := by
    intro hstate
    simpa [hstate] using h.open_
  have hnotClosed : .shutdownWrite ∉ s.conn.socket := by
    intro hclosed
    exact (h.closed hclosed).1 call message len hin
  have houtput : s₁.conn.Output s₁.loop := by
    constructor
    . rw [hconn, hpoller]
      exact h.synced
    . rw [hconn]
      exact h.writing
  obtain ⟨bytes, hload, _⟩ := h.inFlight call message len hin
  obtain ⟨conn, loop, hsend, rfl⟩ := runSend_eq_some (hmemory ▸ hload) hrun
  have hframe := sendInLoop_frame hsend
  obtain ⟨conn', loop', hsend', hsent⟩ := sendInLoop_spec Job.bind houtput bytes w (hconn ▸ hopen)
  simp only [hsend, Option.some.injEq, Prod.mk.injEq] at hsend'
  obtain ⟨rfl, rfl⟩ := hsend'
  rw [WriteResult.faultError_eq_false hw] at hsent
  have hstate : conn.state_ = s.conn.state_ := by rw [hframe.state_, hconn]
  have hsocket : .shutdownWrite ∉ conn.socket := by
    obtain ⟨calls, heq, hwrites⟩ := hframe.writes
    rw [heq, hconn, List.mem_append]
    exact not_or.mpr ⟨hnotClosed, hwrites⟩
  exact
    { hsends, hsent.toOutput with
      stream := by
        dsimp only
        rw [hconn, if_neg hopen, hsent.stream, hprocessed, List.flatMap_append, ← h.stream, hconn]
        simp
      open_ := by
        rw [hstate]
        exact h.open_
      covered := h.callStep hcalls
      disconnecting := by
        intro hdisc
        rw [hstate]
        apply hdisconnecting
        rcases hdisc with hcaller | ⟨k, hjob⟩ | hclosed
        . exact .inl hcaller
        . exact .inr (.inl ⟨k, (mem_queue_of_frame hframe _ rfl).mp hjob⟩)
        . exact absurd hclosed hsocket
      drained := fun hdrained => absurd hdrained hpc
      inCall := fun _ => hpc
      closed := fun hclosed => absurd hclosed hsocket
      halfClose := by
        intro pre post heq
        dsimp only at heq
        simp [heq] at hsocket }

theorem drain_of_not_writing {φ : Type} (bind : Functor → φ) {c : TcpConnection}
    (h : c.channel.isWriting = false) (l : EventLoop φ) (w : WriteResult)
    : c.drain bind l w = some (c, l, false) := by
  simp [TcpConnection.drain, h]

theorem Inv.drain {s s' : Threads τ} {w : WriteResult} {conn : TcpConnection}
    {loop : EventLoop Job} {drained : Bool} (h : s.Inv)
    (hdrain : s.conn.drain Job.bind s.loop w = some (conn, loop, drained))
    (hs' : s' =
      { s with conn := conn, loop := loop, pc := if drained then .drained else .events })
    (hidle : s.callers .loop = .idle) (hcalls : CallStep s s') (hsends : s'.Sends) : s'.Inv := by
  by_cases hclosed : .shutdownWrite ∈ s.conn.socket
  . -- nothing is written any more
    rw [drain_of_not_writing Job.bind (h.closed hclosed).2, Option.some.injEq] at hdrain
    simp only [Prod.mk.injEq] at hdrain
    obtain ⟨rfl, rfl, rfl⟩ := hdrain
    subst hs'
    apply h.same_conn hcalls hsends rfl rfl rfl
    . simp
    . simp
    . intro hdisc
      exact h.disconnecting hdisc
  . have hframe := drain_frame hdrain
    obtain ⟨conn', loop', drained', hdrain', hsent, hoff⟩ := drain_spec Job.bind h.toOutput w
    simp only [hdrain, Option.some.injEq, Prod.mk.injEq] at hdrain'
    obtain ⟨rfl, rfl, rfl⟩ := hdrain'
    subst hs'
    have hsocket : .shutdownWrite ∉ conn.socket := by
      obtain ⟨calls, heq, hwrites⟩ := hframe.writes
      rw [heq, List.mem_append]
      exact not_or.mpr ⟨hclosed, hwrites⟩
    exact
      { hsends, hsent.toOutput with
        stream := by
          dsimp only
          rw [hsent.stream, h.stream]
          simp
        open_ := by
          dsimp only
          rw [hframe.state_]
          exact h.open_
        covered := h.callStep hcalls
        disconnecting := by
          intro hdisc
          dsimp only
          rw [hframe.state_]
          apply h.disconnecting
          rcases hdisc with hcaller | ⟨k, hjob⟩ | hclosed
          . exact .inl hcaller
          . exact .inr (.inl ⟨k, (mem_queue_of_frame hframe _ rfl).mp hjob⟩)
          . exact absurd hclosed hsocket
        drained := by
          intro hpc
          dsimp only at hpc
          split at hpc
          . next hdrained => exact hoff hdrained
          . simp at hpc
        inCall := fun hcall => absurd hidle hcall
        closed := fun hclosed => absurd hclosed hsocket
        halfClose := by
          intro pre post heq
          dsimp only at heq
          simp [heq] at hsocket }

-- the queue holds a `shutdownInLoop` next
def runsShutdown (s : Threads τ) : Bool :=
  match s.loop.functors with
  | ⟨.shutdownInLoop, _⟩ :: _ => true
  | _ => false

theorem Inv.ne_drained {s : Threads τ} (h : s.Inv) {t : Thread τ} (hcaller : s.callers t ≠ .idle)
    : t = .loop → s.pc ≠ .drained := by
  rintro rfl
  exact h.inCall hcaller

variable [DecidableEq τ]

theorem Inv.inCall_setCaller {s : Threads τ} (h : s.Inv) {t : Thread τ} {c : Caller}
    (ht : t = .loop → s.pc ≠ .drained)
    : (s.setCaller t c).callers .loop ≠ .idle → s.pc ≠ .drained := by
  intro hne
  by_cases heq : t = .loop
  . exact ht heq
  . apply h.inCall
    simpa [setCaller, Ne.symm heq] using hne

theorem ne_drained_of_mayCall {s : Threads τ} {t : Thread τ} (h : s.mayCall t = true)
    : t = .loop → s.pc ≠ .drained := by
  simp only [mayCall, Bool.and_eq_true, Bool.or_eq_true, decide_eq_true_eq] at h
  intro ht
  exact h.2.resolve_left (not_not.mpr ht)

theorem disconnecting_setCaller {s : Threads τ} {t : Thread τ} {c : Caller} (hc : c ≠ .shutDown)
    (h : (s.setCaller t c).Disconnecting) : s.Disconnecting := by
  rcases h with ⟨t', ht'⟩ | hrest
  . left
    refine ⟨t', ?_⟩
    by_cases heq : t' = t
    . subst heq
      simp [setCaller, hc] at ht'
    . simpa [setCaller, heq] using ht'
  . exact .inr hrest

/--
A thread leaves its call, or begins one, and does nothing else.
-/
theorem Inv.setCaller {s : Threads τ} (h : s.Inv) {t : Thread τ} {c : Caller} (hc : c ≠ .shutDown)
    (ht : t = .loop → s.pc ≠ .drained) (hcalls : CallStep s (s.setCaller t c))
    : (s.setCaller t c).Inv := by
  apply h.same_conn hcalls (h.toSends.callStep hcalls h.batch) rfl rfl rfl
  . exact id
  . exact h.inCall_setCaller ht
  . intro hdisc
    exact h.disconnecting (disconnecting_setCaller hc hdisc)

-- the steps that execute `shutdownInLoop` while no bytes wait
def halfCloses (s : Threads τ) (a : Label τ) : Bool :=
  !s.conn.channel.isWriting &&
    match a with
    | .shutdownRun t => t = .loop
    | .testState => s.conn.state_ = .kDisconnecting
    | .runFunctor _ => s.runsShutdown
    | _ => false

/--
When the half-close is made no accepted call of `send` is between its check of `state_` and its
`sendInLoop`.
-/
def afterSends (s : Threads τ) (a : Label τ) : Prop :=
  s.halfCloses a = true → s.noneInFlight

def system (τ : Type) [DecidableEq τ] : LTS (Threads τ) (Label τ) :=
  .guarded Established (fun s a => s.enabled a && a.noError) next

theorem Inv.step {s s' : Threads τ} {a : Label τ} (h : s.Inv) (hok : s.afterSends a)
    (hstep : (system τ).step s a = some s') : s'.Inv := by
  obtain ⟨henabled, hnext⟩ := LTS.guarded_step.mp hstep
  obtain ⟨henabled, hnoError⟩ := Bool.and_eq_true_iff.mp henabled
  have hcalls := next_calls h.toSends henabled hnext
  have hsends := h.toSends.step henabled hnext
  cases a with
  | send t message len =>
    have hpc := ne_drained_of_mayCall henabled
    simp only [next, Option.map_eq_some_iff] at hnext
    obtain ⟨contents, _, rfl⟩ := hnext
    split at hcalls
    . next hstate =>
      rw [if_pos hstate] at hsends ⊢
      apply h.same_conn hcalls hsends rfl rfl rfl
      . exact id
      . exact h.inCall_setCaller hpc
      . intro hdisc
        exact h.disconnecting (disconnecting_setCaller (by simp) hdisc)
    . next hstate =>
      rw [if_neg hstate]
      exact h
  | sendRun t w =>
    simp only [next] at hnext
    split at hnext
    . next call message len hcaller =>
      have hpc := h.ne_drained (t := t) (by simp [hcaller])
      split at hnext
      . next ht =>
        apply h.runSend (.inr (.inl ⟨t, hcaller⟩)) hnext hnoError hcalls hsends rfl rfl rfl rfl
        . exact hpc ht
        . intro hdisc
          exact h.disconnecting (disconnecting_setCaller (by simp) hdisc)
      . simp only [Option.some.injEq] at hnext
        subst hnext
        apply h.same_conn hcalls hsends rfl (EventLoop.poller_queueInLoop ..) rfl
        . exact id
        . exact h.inCall_setCaller hpc
        . intro hdisc
          apply h.disconnecting
          apply disconnecting_setCaller (t := t) (c := .idle) (by simp)
          simpa [Disconnecting, queue] using hdisc
    . simp at hnext
  | shutdown t =>
    have hpc := ne_drained_of_mayCall henabled
    simp only [next, Option.some.injEq] at hnext
    subst hnext
    split at hcalls
    . next hstate =>
      rw [if_pos hstate]
      exact h.setCaller (by simp) hpc hcalls
    . next hstate =>
      rw [if_neg hstate]
      exact h
  | shutdownStore t =>
    simp only [enabled, decide_eq_true_eq] at henabled
    have hpc := h.ne_drained (t := t) (by simp [henabled])
    simp only [next, Option.some.injEq] at hnext
    subst hnext
    exact
      { hsends, h with
        open_ := .inr rfl
        covered := h.callStep hcalls
        disconnecting := fun _ => rfl
        inCall := h.inCall_setCaller hpc
        closed := fun hclosed => ⟨(h.callStep_closed hcalls hclosed).1, (h.closed hclosed).2⟩ }
  | shutdownRun t =>
    simp only [enabled, decide_eq_true_eq] at henabled
    have hstate := h.disconnecting (.inl ⟨t, henabled⟩)
    have hpc := h.ne_drained (t := t) (by simp [henabled])
    have hinFlight := inFlight_setCaller (s := s) (t := t) (c := .idle) (by simp [henabled]) (by simp)
      none
    simp only [next] at hnext
    split at hnext
    . next ht =>
      simp only [Option.some.injEq] at hnext
      subst hnext
      have hidle : (s.setCaller t .idle).Inv :=
        h.setCaller (by simp) hpc (.other rfl rfl rfl rfl hinFlight)
      apply hidle.shutdownInLoop hstate
      intro hwriting call message len hin
      apply hok
      . simpa [halfCloses, ht] using hwriting
      . exact (hinFlight call message len).mp hin
    . simp only [Option.some.injEq] at hnext
      subst hnext
      apply h.same_conn hcalls hsends rfl (EventLoop.poller_queueInLoop ..) rfl
      . exact id
      . exact h.inCall_setCaller hpc
      . intro _
        exact hstate
  | handleWrite w =>
    simp only [next, Option.map_eq_some_iff] at hnext
    obtain ⟨⟨conn, loop, drained⟩, hdrain, heq⟩ := hnext
    have hidle := (atPc_iff.mp (Bool.and_eq_true_iff.mp henabled).1).1
    exact h.drain hdrain heq.symm hidle hcalls hsends
  | testState =>
    obtain ⟨hidle, hpc⟩ := atPc_iff.mp henabled
    simp only [next, Option.some.injEq] at hnext
    subst hnext
    have hevents : Inv { s with pc := .events } := by
      have hcalls' : CallStep s { s with pc := .events } := .other rfl rfl rfl rfl (fun _ _ _ => Iff.rfl)
      apply h.same_conn hcalls' (h.toSends.callStep hcalls' _) rfl rfl rfl
      . simp
      . simp
      . exact h.disconnecting
      . intro _
        apply h.batch
        simp [hpc]
    unfold shutdownIfDisconnecting
    split
    . next hstate =>
      apply hevents.shutdownInLoop hstate
      intro hwriting call message len hin
      apply hok
      . simpa [halfCloses, hstate] using hwriting
      . exact hin
    . exact hevents
  | swap =>
    obtain ⟨hidle, hpc⟩ := atPc_iff.mp henabled
    simp only [next, Option.some.injEq] at hnext
    subst hnext
    apply h.same_conn hcalls hsends rfl rfl rfl
    . simp
    . simp
    . intro hdisc
      apply h.disconnecting
      have hbatch := h.batch (by simp [hpc])
      simpa [Disconnecting, queue, EventLoop.swapFunctors, hbatch] using hdisc
  | runFunctor w =>
    obtain ⟨hidle, hpc⟩ := atPc_iff.mp henabled
    simp only [next] at hnext
    split at hnext
    . simp at hnext
    . next job rest hfunctors =>
      have hdisc : Disconnecting { s with loop := { s.loop with functors := rest } } →
          s.conn.state_ = .kDisconnecting := by
        rintro (hcaller | ⟨call, hjob⟩ | hclosed)
        . exact h.disconnecting (.inl hcaller)
        . apply h.disconnecting
          right
          left
          refine ⟨call, ?_⟩
          simp only [queue, hfunctors, List.cons_append, List.mem_cons]
          exact .inr hjob
        . exact h.disconnecting (.inr (.inr hclosed))
      have hpop : (∀ message len call, job ≠ ⟨.sendInLoop message len, some call⟩) →
          Inv { s with loop := { s.loop with functors := rest } } := by
        intro hjob
        have hcalls' : CallStep s { s with loop := { s.loop with functors := rest } } :=
          .other rfl rfl rfl rfl (inFlight_skip hfunctors hjob none)
        apply h.same_conn hcalls' (h.toSends.callStep hcalls' _) rfl rfl rfl
        . exact id
        . exact h.inCall
        . exact hdisc
        . simp [hpc]
      split at hnext
      . next message len call =>
        have hin : s.InFlight none call message len := by
          right
          right
          simp [queue, hfunctors]
        apply h.runSend hin hnext hnoError hcalls hsends rfl rfl rfl rfl
        . simp [hpc]
        . exact hdisc
      . next call =>
        simp only [Option.some.injEq] at hnext
        subst hnext
        have hstate : s.conn.state_ = .kDisconnecting := by
          apply h.disconnecting
          right
          left
          exact ⟨call, by simp [queue, hfunctors]⟩
        apply (hpop (by simp)).shutdownInLoop hstate
        intro hwriting call' message len hin
        apply hok
        . have hruns : s.runsShutdown = true := by simp [runsShutdown, hfunctors]
          simpa [halfCloses, hruns] using hwriting
        . exact (inFlight_skip hfunctors (by simp) none call' message len).mp hin
      . next hjob _ =>
        simp only [Option.some.injEq] at hnext
        subst hnext
        exact hpop (by simpa using hjob)
  | endFunctors =>
    simp only [next, Option.some.injEq] at hnext
    subst hnext
    apply h.same_conn hcalls hsends rfl rfl rfl
    . simp
    . simp
    . exact h.disconnecting

theorem shutdown_graceful {s : Threads τ} (h : (system τ).ReachableBy afterSends s) : s.Graceful :=
  (LTS.ReachableBy.invariant Inv (fun _ => Inv.init) (fun _ _ _ => Inv.step) h).graceful

-- a thread sends and then shuts down, and the first write is a partial one
def sendThenShutdown : List (Label Unit) :=
  [.send (.other ()) 100 3, .sendRun (.other ()) (.accepted 0), .shutdown (.other ()),
    .shutdownStore (.other ()), .shutdownRun (.other ()), .swap, .runFunctor (.accepted 1),
    .runFunctor (.accepted 0), .endFunctors, .handleWrite (.accepted 2)]

def drainedLast : Threads Unit :=
  ((system Unit).runChecked (fun s a => !s.halfCloses a) established sendThenShutdown).get
    (by decide +kernel)

def halfClosed : Threads Unit :=
  ((system Unit).step drainedLast .testState).get (by decide +kernel)

-- the half-close waits for the drain
theorem shutdown_graceful_drained
    : halfClosed.conn.socket = [.write [100, 101, 102] 1, .write [101, 102] 2, .shutdownWrite]
        ∧ halfClosed.Graceful := by
  have hdrained : (system Unit).ReachableBy afterSends drainedLast := by
    apply LTS.ReachableBy.runChecked _ (.init established_init) (Option.some_get _).symm
    simp +contextual [afterSends]
  have hqueue : drainedLast.queue = [] := by decide +kernel
  have hcallers : ∀ t, drainedLast.callers t = .idle := by
    intro t
    cases t with
    | loop => decide +kernel
    | other t =>
      cases t
      decide +kernel
  have hok : drainedLast.afterSends .testState := by
    intro _ call message len hin
    simp [InFlight, hcallers, hqueue] at hin
  refine ⟨by decide +kernel, ?_⟩
  apply shutdown_graceful
  exact .step hdrained hok (Option.some_get _).symm

/--
A message is on its way to the loop thread when the drain of an earlier one ends, with `kDisconnecting`
already stored.
-/
def sendBehindDrain : List (Label Unit) :=
  [.send (.other ()) 100 3, .sendRun (.other ()) (.accepted 0), .swap, .runFunctor (.accepted 1),
    .endFunctors, .send (.other ()) 110 2, .sendRun (.other ()) (.accepted 0),
    .shutdown (.other ()), .shutdownStore (.other ()), .shutdownRun (.other ()),
    .handleWrite (.accepted 2), .testState, .swap, .runFunctor (.accepted 0)]

def halfClosedEarly : Threads Unit :=
  ((system Unit).run established sendBehindDrain).get (by decide +kernel)

theorem shutdown_overtakes
    : (system Unit).Reachable halfClosedEarly
        ∧ halfClosedEarly.contents 1 = some [110, 111]
        ∧ halfClosedEarly.conn.socket =
            [.write [100, 101, 102] 1, .write [101, 102] 2, .shutdownWrite, .write [110, 111] 0]
        ∧ ¬halfClosedEarly.Graceful := by
  have hsocket : halfClosedEarly.conn.socket =
      [.write [100, 101, 102] 1, .write [101, 102] 2, .shutdownWrite, .write [110, 111] 0] := by
    decide +kernel
  refine ⟨.run (.init established_init) (Option.some_get _).symm, by decide +kernel, hsocket, ?_⟩
  intro hgraceful
  apply hgraceful.writes [.write [100, 101, 102] 1, .write [101, 102] 2] [.write [110, 111] 0] hsocket
    [110, 111] 0
  simp

end Threads

end TcpConnection

end MyMuduo
