import MyMuduo.TcpConnection.Session

/-!
This module contains the functors that tell the user how much waits in the output buffer: one when the last
byte has gone to the kernel, and one when the mark is reached from below.
-/

namespace MyMuduo

universe u

namespace TcpConnection

variable {φ : Type u} {bind : Functor → φ} {c c' : TcpConnection} {l l' : EventLoop φ}

theorem pending_queueInLoop_if (l : EventLoop φ) (test : Bool) (cb : φ)
    : (if test then l.queueInLoop true cb else l).pendingFunctors
        = l.pendingFunctors ++ if test then [cb] else [] := by
  cases test with
  | true => simp
  | false => simp

theorem pending_keepRemaining {data : List UInt8} (h : c.keepRemaining bind l data = some (c', l'))
    : l'.pendingFunctors = l.pendingFunctors
        ++ if c.highWaterMark ≤ c.outputBuffer.readableBytes + data.length
            && c.outputBuffer.readableBytes < c.highWaterMark && c.highWaterMarkCallback then
          [bind (.highWaterMarkCallback (c.outputBuffer.readableBytes + data.length))]
        else
          [] := by
  unfold keepRemaining at h
  dsimp only at h
  generalize hnotify : (decide (c.highWaterMark ≤ _) && _ && _) = notify at h ⊢
  have hqueued := pending_queueInLoop_if l notify
    (bind (.highWaterMarkCallback (c.outputBuffer.readableBytes + data.length)))
  rw [← hqueued]
  split at h
  . simp only [Option.map_eq_some_iff, Prod.mk.injEq] at h
    obtain ⟨_, _, _, rfl⟩ := h
    rfl
  . simp only [Option.some.injEq, Prod.mk.injEq] at h
    rw [h.2]

namespace Session

inductive Label.Transfers : Label → Prop where
  | sendInLoop (message : List UInt8) (w : WriteResult) : Transfers (.sendInLoop message w)
  | handleWrite (w : WriteResult) : Transfers (.handleWrite w)

-- the kernel accepts the last of the bytes that have to go to it, in the step that writes them
def completes (s : Session φ) : Label → Bool
  | .sendInLoop message (.accepted nwrote) => s.conn.outputBuffer.readable = [] ∧ nwrote = message.length
  | .handleWrite (.accepted nwrote) =>
    s.conn.outputBuffer.readable ≠ [] ∧ nwrote = s.conn.outputBuffer.readable.length
  | _ => false

-- what waits reaches the mark from below
def crosses (s s' : Session φ) : Bool :=
  s.conn.outputBuffer.readable.length < s.conn.highWaterMark
    ∧ s.conn.highWaterMark ≤ s'.conn.outputBuffer.readable.length

/--
The specification: what a step has to tell the user.
-/
def notices (s : Session φ) (a : Label) (s' : Session φ) : List Functor :=
  (if s.completes a then [.writeCompleteCallback] else [])
    ++ if s.crosses s' then [.highWaterMarkCallback s'.conn.outputBuffer.readable.length] else []

variable {bind : Task → φ} {s s' : Session φ} {a : Label}

theorem crosses_of_shorter
    (h : s'.conn.outputBuffer.readable.length ≤ s.conn.outputBuffer.readable.length)
    : s.crosses s' = false := by
  simp only [crosses, decide_eq_false_iff_not]
  omega

theorem completes_sendInLoop {message : List UInt8} {w : WriteResult}
    : s.completes (.sendInLoop message w) = true
        ↔ s.conn.outputBuffer.readable = [] ∧ w = .accepted message.length := by
  cases w with
  | accepted nwrote => simp [completes]
  | failed errno => simp [completes]

theorem completes_handleWrite {w : WriteResult}
    : s.completes (.handleWrite w) = true
        ↔ s.conn.outputBuffer.readable ≠ [] ∧ w = .accepted s.conn.outputBuffer.readable.length := by
  cases w with
  | accepted nwrote => simp [completes]
  | failed errno => simp [completes]

-- nothing more waits than before
theorem notices_of_shorter {conn : TcpConnection} {loop : EventLoop φ}
    (h : conn.outputBuffer.readable.length ≤ s.conn.outputBuffer.readable.length)
    : s.notices a ⟨conn, loop⟩ = if s.completes a then [.writeCompleteCallback] else [] := by
  rw [notices, crosses_of_shorter h]
  simp

theorem notices_quiet {conn : TcpConnection} {loop : EventLoop φ} (hcompletes : ¬ s.completes a = true)
    (h : conn.outputBuffer.readable.length ≤ s.conn.outputBuffer.readable.length)
    : s.notices a ⟨conn, loop⟩ = [] := by
  rw [notices_of_shorter h, if_neg hcompletes]

theorem notices_complete {conn : TcpConnection} {loop : EventLoop φ} (hcompletes : s.completes a = true)
    (h : conn.outputBuffer.readable.length ≤ s.conn.outputBuffer.readable.length)
    : s.notices a ⟨conn, loop⟩ = [.writeCompleteCallback] := by
  rw [notices_of_shorter h, if_pos hcompletes]

-- the rest of a message is kept, and nothing is complete
theorem notices_kept {data : List UInt8} {conn conn' : TcpConnection} {loop : EventLoop φ}
    (hkeep : conn.keepRemaining (bind ∘ .own) s.loop data = some (conn', loop))
    (hcompletes : ¬ s.completes a = true) (hbuffer : conn.outputBuffer = s.conn.outputBuffer)
    (hmark : conn.highWaterMark = s.conn.highWaterMark) (hcallback : conn.highWaterMarkCallback = true)
    : loop.pendingFunctors = s.loop.pendingFunctors ++ (s.notices a ⟨conn', loop⟩).map (bind ∘ .own) := by
  have hreadable := readable_keepRemaining hkeep
  have hlength : conn'.outputBuffer.readable.length
      = s.conn.outputBuffer.readable.length + data.length := by
    rw [hreadable, hbuffer, List.length_append]
  rw [pending_keepRemaining hkeep, hcallback, hbuffer, hmark, ByteBuffer.readableBytes_eq, ← hlength]
  unfold notices crosses
  rw [if_neg hcompletes]
  by_cases hreached : s.conn.highWaterMark ≤ conn'.outputBuffer.readable.length
  . by_cases hbelow : s.conn.outputBuffer.readable.length < s.conn.highWaterMark
    . simp [hreached, hbelow]
    . simp [hbelow]
  . simp [hreached]

theorem not_completes_of_behind {message : List UInt8} {w : WriteResult} (h : s.Inv)
    (hdirect : s.conn.writesDirectly = false) : ¬ s.completes (.sendInLoop message w) = true := by
  rw [completes_sendInLoop]
  rintro ⟨hempty, _⟩
  rw [h.writesDirectly_iff.mpr hempty] at hdirect
  cases hdirect

theorem notices_sendInLoop {message : List UInt8} {w : WriteResult} {conn : TcpConnection}
    {loop : EventLoop φ} (h : s.Inv) (hcomplete : s.conn.writeCompleteCallback = true)
    (hmark : s.conn.highWaterMarkCallback = true) (hfits : w.fits message.length = true)
    (hsending : Sending (bind ∘ .own) s.conn s.loop message w conn loop)
    : loop.pendingFunctors
        = s.loop.pendingFunctors ++ (s.notices (.sendInLoop message w) ⟨conn, loop⟩).map (bind ∘ .own) := by
  cases hsending with
  | @complete nwrote hdirect hdata =>
    have hall : nwrote = message.length := by
      have hle : nwrote ≤ message.length := of_decide_eq_true hfits
      have hge : message.length ≤ nwrote := List.drop_eq_nil_iff.mp hdata
      exact Nat.le_antisymm hle hge
    have hcompletes : s.completes (.sendInLoop message (.accepted nwrote)) = true := by
      rw [completes_sendInLoop, hall]
      exact ⟨readable_of_writesDirectly hdirect, rfl⟩
    rw [notices_complete hcompletes, hcomplete]
    . simp
    . exact Nat.le_refl _
  | @remains nwrote _ _ hdirect hdata hkeep =>
    have hcompletes : ¬ s.completes (.sendInLoop message (.accepted nwrote)) = true := by
      rw [completes_sendInLoop, WriteResult.accepted.injEq]
      rintro ⟨_, rfl⟩
      exact hdata List.drop_length
    exact notices_kept hkeep hcompletes rfl rfl hmark
  | givenUp _ _ =>
    rw [notices_quiet]
    . simp
    . simp [completes]
    . exact Nat.le_refl _
  | refused hdirect hdata hkeep => exact notices_kept hkeep Bool.false_ne_true rfl rfl hmark
  | behind hdirect hdata hkeep =>
    exact notices_kept hkeep (not_completes_of_behind h hdirect) rfl rfl hmark
  | nothing hdirect hdata =>
    rw [notices_quiet (not_completes_of_behind h hdirect)]
    . simp
    . exact Nat.le_refl _

theorem notices_drain {w : WriteResult} {drained : Bool} {conn : TcpConnection} {loop : EventLoop φ}
    (h : s.Inv) (hcomplete : s.conn.writeCompleteCallback = true)
    (hfits : w.fits s.conn.outputBuffer.readableBytes = true)
    (hdraining : Draining (bind ∘ .own) s.conn s.loop w conn loop drained)
    : loop.pendingFunctors
        = s.loop.pendingFunctors ++ (s.notices (.handleWrite w) ⟨conn, loop⟩).map (bind ∘ .own) := by
  have hlength : (s.conn.outputBuffer.retrieve w.nwrote).readable.length
      ≤ s.conn.outputBuffer.readable.length := by
    rw [ByteBuffer.readable_retrieve, List.length_drop]
    apply Nat.sub_le
  cases hdraining with
  | idle hidle =>
    have hcompletes : ¬ s.completes (.handleWrite w) = true := by
      rw [completes_handleWrite]
      rintro ⟨hwaiting, _⟩
      rw [h.writing.mpr hwaiting] at hidle
      cases hidle
    rw [notices_quiet hcompletes]
    . simp
    . exact Nat.le_refl _
  | refused hwriting hnone =>
    have hcompletes : ¬ s.completes (.handleWrite w) = true := by
      rw [completes_handleWrite]
      rintro ⟨hwaiting, rfl⟩
      exact hwaiting (List.length_eq_zero_iff.mp hnone)
    rw [notices_quiet hcompletes]
    . simp
    . exact Nat.le_refl _
  | partly hwriting hsome hleft =>
    have hcompletes : ¬ s.completes (.handleWrite w) = true := by
      rw [completes_handleWrite]
      rintro ⟨_, rfl⟩
      rw [ByteBuffer.readable_retrieve] at hleft
      exact hleft List.drop_length
    rw [notices_quiet hcompletes]
    . simp
    . exact hlength
  | emptied hwriting hsome hempty _ =>
    have hcompletes : s.completes (.handleWrite w) = true := by
      rw [completes_handleWrite]
      refine ⟨h.writing.mp hwriting, ?_⟩
      cases w with
      | accepted nwrote =>
        rw [ByteBuffer.readable_retrieve, List.drop_eq_nil_iff] at hempty
        simp only [WriteResult.nwrote] at hempty
        simp only [WriteResult.fits, ByteBuffer.readableBytes_eq, decide_eq_true_eq] at hfits
        rw [Nat.le_antisymm hfits hempty]
      | failed errno => cases hsome
    rw [notices_complete hcompletes, hcomplete]
    . simp
    . exact hlength

theorem mem_notices (s : Session φ) (a : Label) (s' : Session φ)
    : .writeCompleteCallback ∈ s.notices a s' ↔ s.completes a = true := by
  unfold notices
  cases s.completes a with
  | true => simp
  | false =>
    cases s.crosses s' with
    | true => simp
    | false => simp

theorem readable_of_sent {message : List UInt8} {w : WriteResult} {conn : TcpConnection} {loop : EventLoop φ}
    (h : s.Inv) (hcompletes : s.completes (.sendInLoop message w) = true)
    (hsending : Sending (bind ∘ .own) s.conn s.loop message w conn loop)
    : conn.outputBuffer.readable = [] := by
  obtain ⟨hempty, rfl⟩ := completes_sendInLoop.mp hcompletes
  have hdirect := h.writesDirectly_iff.mpr hempty
  cases hsending with
  | complete _ _ => exact hempty
  | remains _ hdata _ => exact absurd List.drop_length hdata
  | behind hbehind _ _ => exact absurd hdirect (Bool.eq_false_iff.mp hbehind)
  | nothing hbehind _ => exact absurd hdirect (Bool.eq_false_iff.mp hbehind)

theorem readable_of_drained {w : WriteResult} {conn : TcpConnection} {loop : EventLoop φ} {drained : Bool}
    (h : s.Inv) (hcompletes : s.completes (.handleWrite w) = true)
    (hdraining : Draining (bind ∘ .own) s.conn s.loop w conn loop drained)
    : conn.outputBuffer.readable = [] := by
  obtain ⟨hwaiting, rfl⟩ := completes_handleWrite.mp hcompletes
  have hempty : (s.conn.outputBuffer.retrieve s.conn.outputBuffer.readable.length).readable = [] := by
    rw [ByteBuffer.readable_retrieve, List.drop_length]
  cases hdraining with
  | idle hidle => exact absurd (h.writing.mpr hwaiting) (Bool.eq_false_iff.mp hidle)
  | refused _ hnone => exact absurd (List.length_eq_zero_iff.mp hnone) hwaiting
  | partly _ _ hleft => exact absurd hempty hleft
  | emptied _ _ _ _ => exact hempty

/--
A step that takes a message or drains the buffer queues what the specification says and nothing else: the
first functor if the kernel has accepted the last byte, and then nothing waits, and the second one with what
waits now if the mark has been reached from below.
-/
theorem notices_exact (bind : Task → φ) (s : Session φ) (h : (system bind).Reachable s)
    (hcomplete : s.conn.writeCompleteCallback = true) (hmark : s.conn.highWaterMarkCallback = true)
    (a : Label) (ha : a.Transfers) (s' : Session φ) (hstep : (system bind).step s a = some s')
    : s'.loop.pendingFunctors = s.loop.pendingFunctors ++ (s.notices a s').map (bind ∘ .own)
        ∧ (.writeCompleteCallback ∈ s.notices a s' → s'.conn.outputBuffer.readable = []) := by
  have hinv := inv_reachable h
  rw [mem_notices]
  cases step_cases hinv hstep with
  | sendInLoop hfits hsending =>
    exact ⟨notices_sendInLoop hinv hcomplete hmark hfits hsending,
      fun hcompletes => readable_of_sent hinv hcompletes hsending⟩
  | @handleWrite w conn drained hfits hdraining hconn =>
    have hbuffer : s'.conn.outputBuffer = conn.outputBuffer := by
      rw [hconn]
      cases drained with
      | true => exact outputBuffer_shutdownIfDisconnecting conn
      | false => rfl
    have hnotices : s.notices (.handleWrite w) s' = s.notices (.handleWrite w) ⟨conn, s'.loop⟩ := by
      unfold notices crosses
      rw [hbuffer]
    rw [hnotices, hbuffer]
    exact ⟨notices_drain hinv hcomplete hfits hdraining,
      fun hcompletes => readable_of_drained hinv hcompletes hdraining⟩
  | request hsend hwrite _ =>
    cases ha with
    | sendInLoop message w => exact absurd rfl (hsend message w)
    | handleWrite w => exact absurd rfl (hwrite w)

-- a connection on descriptor 7 with both callbacks and a mark of three bytes
def established : Session Task :=
  let conn : TcpConnection := { (new 2 7).setCallbacks true true with highWaterMark := 3 }
  let (conn, loop) := (conn.connectEstablished (.constructed _)).get rfl
  ⟨conn, loop⟩

theorem established_init : established.Established :=
  ⟨2, 7, true, true, 3, .constructed _, rfl, rfl⟩

-- two of three bytes wait, then the mark is reached, and all is drained
def crossedAndDrained : List Label :=
  [.sendInLoop [1, 2, 3] (.accepted 1), .sendInLoop [4, 5] (.accepted 0), .handleWrite (.accepted 4)]

set_option maxRecDepth 8000 in
theorem notices_exact_crossedAndDrained
    : ∃ s s' : Session Task, (system id).Reachable s
        ∧ (system id).step s (.handleWrite (.accepted 4)) = some s'
        ∧ s.loop.pendingFunctors = [.own (.highWaterMarkCallback 4)]
        ∧ s'.loop.pendingFunctors = [.own (.highWaterMarkCallback 4), .own .writeCompleteCallback]
        ∧ s'.conn.outputBuffer.readable = [] := by
  have h : (system id).run established (crossedAndDrained.take 2) = some _ := rfl
  have hreachable := LTS.Reachable.run (.init established_init) h
  have hexact := notices_exact id _ hreachable rfl rfl (.handleWrite (.accepted 4)) (.handleWrite _) _ rfl
  exact ⟨_, _, hreachable, rfl, rfl, hexact.1, hexact.2 (by decide +kernel)⟩

end Session

end TcpConnection

end MyMuduo
