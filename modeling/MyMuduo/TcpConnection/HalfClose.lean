import MyMuduo.TcpConnection.Session
import MyMuduo.Transition.History

/-!
This module contains the half-close: it waits until the output buffer is empty, and the drain that empties
the buffer does not leave it to a later step.
-/

namespace MyMuduo

universe u

namespace TcpConnection

variable {φ : Type u} {bind : Functor → φ} {c c' : TcpConnection} {l l' : EventLoop φ} {w : WriteResult}

theorem Sending.frame {message : List UInt8} (h : Sending bind c l message w c' l') : Frame bind c l c' l' := by
  cases h with
  | @complete nwrote _ _ =>
    have hwrite : Frame bind c l (c.write message (.accepted nwrote)) l := Frame.write ..
    exact hwrite.trans (Frame.notice_if rfl _ _ _)
  | remains _ _ hkeep => exact (Frame.write ..).trans (keepRemaining_frame hkeep)
  | givenUp _ _ => exact Frame.write ..
  | refused _ _ hkeep => exact (Frame.write ..).trans (keepRemaining_frame hkeep)
  | behind _ _ hkeep => exact keepRemaining_frame hkeep
  | nothing _ _ => exact Frame.refl c l

-- what waits is not overtaken and not taken out
theorem Sending.waits {message : List UInt8} (h : Sending bind c l message w c' l')
    (hwaiting : c.outputBuffer.readable ≠ []) : c'.outputBuffer.readable ≠ [] := by
  cases h with
  | complete hdirect _ => exact absurd (readable_of_writesDirectly hdirect) hwaiting
  | remains hdirect _ _ => exact absurd (readable_of_writesDirectly hdirect) hwaiting
  | givenUp hdirect _ => exact absurd (readable_of_writesDirectly hdirect) hwaiting
  | refused hdirect _ _ => exact absurd (readable_of_writesDirectly hdirect) hwaiting
  | behind _ _ hkeep =>
    rw [readable_keepRemaining hkeep]
    exact List.append_ne_nil_of_left_ne_nil hwaiting _
  | nothing _ _ => exact hwaiting

theorem Draining.state_ {drained : Bool} (h : Draining bind c l w c' l' drained) : c'.state_ = c.state_ := by
  cases h with
  | idle _ => rfl
  | refused _ _ => rfl
  | partly _ _ _ => rfl
  | emptied _ _ _ _ => rfl

theorem socket_shutdownIfDisconnecting (h : c.channel.isWriting = false)
    : c.shutdownIfDisconnecting.socket
        = c.socket ++ if c.state_ = .kDisconnecting then [.shutdownWrite] else [] := by
  unfold shutdownIfDisconnecting
  split
  . rw [shutdownInLoop, h]
    rfl
  . rw [List.append_nil]

namespace Session

variable {bind : Task → φ} {s s' : Session φ} {a : Label}

/--
What a step does to the socket: the half-close comes last and with an empty buffer.
-/
structure HalfCloses (s s' : Session φ) (calls : List SocketCall) : Prop where
  socket : s'.conn.socket = s.conn.socket ++ calls
  last : .shutdownWrite ∈ calls → calls.getLast? = some .shutdownWrite ∧ calls.count .shutdownWrite = 1
  empty : .shutdownWrite ∈ calls → s'.conn.outputBuffer.readable = []

theorem halfCloses_of_not_mem {calls : List SocketCall} (hsocket : s'.conn.socket = s.conn.socket ++ calls)
    (hcalls : .shutdownWrite ∉ calls) : HalfCloses s s' calls :=
  ⟨hsocket, fun h => absurd h hcalls, fun h => absurd h hcalls⟩

theorem halfCloses_requested (h : s.Inv) (hrequested : Requested s s') : ∃ calls, HalfCloses s s' calls := by
  cases hrequested.socket with
  | inl hkept =>
    refine ⟨[], halfCloses_of_not_mem ?_ List.not_mem_nil⟩
    rw [hkept, List.append_nil]
  | inr hclosed =>
    obtain ⟨hidle, hsocket⟩ := hclosed
    refine ⟨[.shutdownWrite], hsocket, fun _ => ⟨rfl, rfl⟩, ?_⟩
    intro _
    rw [hrequested.outputBuffer]
    by_contra hwaiting
    rw [h.writing.mpr hwaiting] at hidle
    cases hidle

theorem halfCloses_undrained {calls : List SocketCall} (hsocket : s'.conn.socket = s.conn.socket ++ calls)
    (hcalls : .shutdownWrite ∉ calls)
    (hleft : s.conn.outputBuffer.readable ≠ [] → s'.conn.outputBuffer.readable ≠ [])
    : ∃ calls, HalfCloses s s' calls
        ∧ (s.conn.state_ = .kDisconnecting → s.conn.outputBuffer.readable ≠ [] →
          s'.conn.outputBuffer.readable = [] → .shutdownWrite ∈ calls) := by
  refine ⟨calls, halfCloses_of_not_mem hsocket hcalls, ?_⟩
  intro _ hwaiting hempty
  exact absurd hempty (hleft hwaiting)

/--
The drain that empties the buffer closes the connection for writing exactly if that has been asked for.
-/
theorem halfCloses_drained {w : WriteResult} {conn : TcpConnection} {loop : EventLoop φ} {drained : Bool}
    (h : s.Inv) (hdraining : Draining (bind ∘ .own) s.conn s.loop w conn loop drained)
    (hconn : s'.conn = if drained then conn.shutdownIfDisconnecting else conn)
    : ∃ calls, HalfCloses s s' calls
        ∧ (s.conn.state_ = .kDisconnecting → s.conn.outputBuffer.readable ≠ [] →
          s'.conn.outputBuffer.readable = [] → .shutdownWrite ∈ calls) := by
  cases hdraining with
  | idle _ =>
    rw [if_neg Bool.false_ne_true] at hconn
    refine halfCloses_undrained ?_ List.not_mem_nil ?_
    . rw [hconn, List.append_nil]
    . rw [hconn]
      exact id
  | refused _ _ =>
    rw [if_neg Bool.false_ne_true] at hconn
    have hsocket : s'.conn.socket = s.conn.socket ++ [.write s.conn.outputBuffer.readable w.nwrote] := by
      rw [hconn]
      rfl
    refine halfCloses_undrained hsocket (by simp) ?_
    rw [hconn]
    exact id
  | partly _ _ hleft =>
    rw [if_neg Bool.false_ne_true] at hconn
    have hsocket : s'.conn.socket = s.conn.socket ++ [.write s.conn.outputBuffer.readable w.nwrote] := by
      rw [hconn]
      rfl
    refine halfCloses_undrained hsocket (by simp) ?_
    rw [hconn]
    exact fun _ => hleft
  | @emptied poller channel _ _ hempty hdisable =>
    rw [if_pos rfl] at hconn
    obtain ⟨_, _, heq, _, hidle⟩ := Channel.disableWriting_of_synced h.synced
    rw [hdisable, Option.some.injEq, Prod.mk.injEq] at heq
    rw [← heq.2] at hidle
    have hbuffer : s'.conn.outputBuffer.readable = [] := by
      rw [hconn, Session.outputBuffer_shutdownIfDisconnecting]
      exact hempty
    have hsocket : s'.conn.socket = s.conn.socket ++ (.write s.conn.outputBuffer.readable w.nwrote
        :: if s.conn.state_ = .kDisconnecting then [.shutdownWrite] else []) := by
      rw [hconn, socket_shutdownIfDisconnecting hidle]
      simp only [write, List.append_assoc, List.cons_append, List.nil_append]
      rfl
    refine ⟨_, ⟨hsocket, ?_, fun _ => hbuffer⟩, ?_⟩
    . split
      . simp
      . simp
    . intro hstate _ _
      simp [hstate]

/--
The runs with a history: whether `shutdown()` has been called while output was pending that is still pending.
-/
def owing (bind : Task → φ) : LTS (Recorded (Session φ) Bool) Label :=
  (system bind).recording (fun _ => false) fun owed _ a s' =>
    (owed || a = .shutdown) && s'.conn.outputBuffer.readable ≠ []

-- once a connection is to be closed it stays so
theorem disconnecting_step (h : s.Inv) (hstate : s.conn.state_ = .kDisconnecting)
    (hstep : (system bind).step s a = some s') : s'.conn.state_ = .kDisconnecting := by
  cases step_cases h hstep with
  | sendInLoop _ hsending => exact hsending.frame.state_.trans hstate
  | @handleWrite w conn drained _ hdraining hconn =>
    rw [hconn]
    split
    . rw [state_shutdownIfDisconnecting, hdraining.state_]
      exact hstate
    . exact hdraining.state_.trans hstate
  | request _ _ hrequested =>
    cases hrequested.state_ with
    | inl hkept => exact hkept.trans hstate
    | inr hdisconnecting => exact hdisconnecting

theorem disconnecting_shutdown (h : s.Inv) (hstep : (system bind).step s .shutdown = some s')
    : s'.conn.state_ = .kDisconnecting := by
  cases h.open_ with
  | inr hstate => exact disconnecting_step h hstate hstep
  | inl hstate =>
    obtain ⟨_, hnext⟩ := LTS.guarded_step.mp hstep
    simp only [next, shutdown, hstate, if_true, Option.some.injEq] at hnext
    subst hnext
    exact state_shutdownInLoop _

theorem state_of_owed {r : Recorded (Session φ) Bool} (h : (owing bind).Reachable r) (howed : r.history = true)
    : r.state.conn.state_ = .kDisconnecting ∧ r.state.conn.outputBuffer.readable ≠ [] := by
  induction h with
  | init hinit =>
    rw [hinit.2] at howed
    cases howed
  | @step r r' a hr _ hstep ih =>
    obtain ⟨hnext, hhistory⟩ := LTS.recording_step.mp hstep
    rw [hhistory, Bool.and_eq_true, Bool.or_eq_true, decide_eq_true_eq, decide_eq_true_eq] at howed
    obtain ⟨hasked, hwaiting⟩ := howed
    refine ⟨?_, hwaiting⟩
    have hinv := inv_reachable (LTS.Reachable.state hr)
    cases hasked with
    | inl howed => exact disconnecting_step hinv (ih howed).1 hnext
    | inr hshutdown =>
      rw [hshutdown] at hnext
      exact disconnecting_shutdown hinv hnext

/--
The half-close is called with an empty buffer only, as the last thing that a step does, and when it was asked
for while output was pending, then in the drain that empties the buffer.
-/
theorem halfClose_waits (bind : Task → φ) (r : Recorded (Session φ) Bool) (h : (owing bind).Reachable r)
    (a : Label) (r' : Recorded (Session φ) Bool) (hstep : (owing bind).step r a = some r')
    : ∃ calls, HalfCloses r.state r'.state calls
        ∧ (r.history = true → r'.state.conn.outputBuffer.readable = [] →
          (∃ w, a = .handleWrite w) ∧ .shutdownWrite ∈ calls) := by
  have hinv := inv_reachable h.state
  cases step_cases hinv (LTS.recording_step.mp hstep).1 with
  | sendInLoop hfits hsending =>
    obtain ⟨calls, hsocket, hcalls⟩ := hsending.frame.writes
    refine ⟨calls, halfCloses_of_not_mem hsocket hcalls, ?_⟩
    intro howed hempty
    exact absurd hempty (hsending.waits (state_of_owed h howed).2)
  | @handleWrite w conn drained hfits hdraining hconn =>
    obtain ⟨calls, hcloses, hasked⟩ := halfCloses_drained hinv hdraining hconn
    refine ⟨calls, hcloses, ?_⟩
    intro howed hempty
    obtain ⟨hstate, hwaiting⟩ := state_of_owed h howed
    exact ⟨⟨w, rfl⟩, hasked hstate hwaiting hempty⟩
  | request _ _ hrequested =>
    obtain ⟨calls, hcloses⟩ := halfCloses_requested hinv hrequested
    refine ⟨calls, hcloses, ?_⟩
    intro howed hempty
    rw [hrequested.outputBuffer] at hempty
    exact absurd hempty (state_of_owed h howed).2

-- a connection on descriptor 7 without callbacks
def plain : Session Task :=
  let (conn, loop) := (((new 2 7).setCallbacks false false).connectEstablished (.constructed _)).get rfl
  ⟨conn, loop⟩

theorem plain_init : plain.Established :=
  ⟨2, 7, false, false, 64 * 1024 * 1024, .constructed _, rfl, rfl⟩

-- two bytes wait when `shutdown()` is called, and one of them is written
def closedWhileWriting : List Label :=
  [.sendInLoop [1, 2, 3] (.accepted 1), .shutdown, .handleWrite (.accepted 1)]

set_option maxRecDepth 8000 in
theorem halfClose_waits_closedWhileWriting
    : ∃ r r' calls, (owing id).Reachable r
        ∧ r.history = true ∧ r.state.conn.socket = [.write [1, 2, 3] 1, .write [2, 3] 1]
        ∧ (owing id).step r (.handleWrite (.accepted 1)) = some r'
        ∧ HalfCloses r.state r'.state calls ∧ .shutdownWrite ∈ calls := by
  have h : (owing id).run ⟨plain, false⟩ closedWhileWriting = some _ := rfl
  have hinit : (owing id).Reachable ⟨plain, false⟩ := .init ⟨plain_init, rfl⟩
  have hreachable := hinit.run h
  obtain ⟨calls, hcloses, howed⟩ :=
    halfClose_waits id _ hreachable (.handleWrite (.accepted 1)) _ rfl
  exact ⟨_, _, calls, hreachable, rfl, by decide +kernel, rfl, hcloses, (howed rfl (by decide +kernel)).2⟩

end Session

end TcpConnection

end MyMuduo
