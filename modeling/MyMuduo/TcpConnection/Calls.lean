import MyMuduo.TcpConnection.Threads

/-!
This module contains where an accepted call of `send` can be, with its thread, in the queue of the loop
or executed, and what its argument holds there.
-/

namespace MyMuduo

namespace TcpConnection

open EventLoop (Thread)

namespace Threads

variable {τ : Type}

/--
An accepted call whose `sendInLoop` has not been executed. `running` is the one that the loop thread is
about to execute, if it has already left its thread or the queue.
-/
def InFlight (s : Threads τ) (running : Option (Nat × Addr × Nat)) (call : Nat) (message : Addr)
    (len : Nat) : Prop :=
  running = some (call, message, len) ∨ (∃ t, s.callers t = .sending call message len)
    ∨ ⟨.sendInLoop message len, some call⟩ ∈ s.queue

theorem mem_queue_of_frame {c c' : TcpConnection} {l l' : EventLoop Job}
    (h : Frame Job.bind c l c' l') (job : Job) (hjob : job.functor.isNotice = false)
    : job ∈ l'.functors ++ l'.pendingFunctors ↔ job ∈ l.functors ++ l.pendingFunctors := by
  obtain ⟨notices, heq, hall⟩ := h.notices
  rw [h.functors, heq, ← List.append_assoc, List.mem_append (t := notices.map _), or_iff_left]
  intro hmem
  obtain ⟨f, hf, rfl⟩ := List.mem_map.mp hmem
  simp [Job.bind, hall f hf] at hjob

theorem inFlight_congr {s s' : Threads τ} {running : Option (Nat × Addr × Nat)} {call : Nat}
    {message : Addr} {len : Nat} (hcallers : s'.callers = s.callers)
    (hqueue : ⟨.sendInLoop message len, some call⟩ ∈ s'.queue ↔
      ⟨.sendInLoop message len, some call⟩ ∈ s.queue)
    : s'.InFlight running call message len ↔ s.InFlight running call message len := by
  unfold InFlight
  rw [hcallers, hqueue]

-- the functor of a call takes its turn
theorem inFlight_pop {s : Threads τ} {call : Nat} {message : Addr} {len : Nat} {rest : List Job}
    (h : s.loop.functors = ⟨.sendInLoop message len, some call⟩ :: rest)
    (call' : Nat) (message' : Addr) (len' : Nat)
    : InFlight { s with loop := { s.loop with functors := rest } } (some (call, message, len)) call'
        message' len'
      ↔ s.InFlight none call' message' len' := by
  simp only [InFlight, queue, h, Option.some.injEq, Prod.mk.injEq, List.cons_append, List.mem_cons,
    Job.mk.injEq, Functor.sendInLoop.injEq, reduceCtorEq, false_or]
  grind

-- a functor of another kind does
theorem inFlight_skip {s : Threads τ} {job : Job} {rest : List Job}
    (h : s.loop.functors = job :: rest)
    (hjob : ∀ message len call, job ≠ ⟨.sendInLoop message len, some call⟩)
    (running : Option (Nat × Addr × Nat)) (call' : Nat) (message' : Addr) (len' : Nat)
    : InFlight { s with loop := { s.loop with functors := rest } } running call' message' len'
      ↔ s.InFlight running call' message' len' := by
  apply inFlight_congr (s := s)
  . rfl
  have := hjob message' len' call'
  simp only [queue, h, List.cons_append, List.mem_cons]
  grind

theorem inFlight_push {s : Threads τ} {call : Nat} {message : Addr} {len : Nat}
    (call' : Nat) (message' : Addr) (len' : Nat)
    : InFlight
          { s with loop := s.loop.queueInLoop false ⟨.sendInLoop message len, some call⟩ } none call'
          message' len'
      ↔ s.InFlight (some (call, message, len)) call' message' len' := by
  simp only [InFlight, queue, EventLoop.functors_queueInLoop, EventLoop.pendingFunctors_queueInLoop,
    Option.some.injEq, Prod.mk.injEq, List.mem_append, List.mem_singleton, Job.mk.injEq,
    Functor.sendInLoop.injEq, reduceCtorEq, false_or]
  grind

theorem runSend_eq_some {s s' : Threads τ} {call : Nat} {message : Addr} {len : Nat}
    {w : WriteResult} {bytes : List UInt8} (hload : s.memory.load message len = some bytes)
    (h : s.runSend call message len w = some s')
    : ∃ conn loop, s.conn.sendInLoop Job.bind s.loop bytes w = some (conn, loop)
        ∧ s' =
            { s with
                conn := conn
                loop := loop
                processed :=
                  if s.conn.state_ = .kDisconnected then
                    s.processed
                  else
                    s.processed ++ [(call, bytes)] } := by
  simp only [runSend, hload] at h
  split at h
  . simp only [Option.map_eq_some_iff] at h
    obtain ⟨⟨conn, loop⟩, hsend, rfl⟩ := h
    exact ⟨conn, loop, hsend, rfl⟩
  . simp at h

theorem runSend_batch {s s' : Threads τ} {call : Nat} {message : Addr} {len : Nat} {w : WriteResult}
    (h : s.runSend call message len w = some s')
    : s'.pc = s.pc ∧ s'.loop.functors = s.loop.functors := by
  cases hload : s.memory.load message len with
  | none =>
    simp only [runSend, hload, Option.some.injEq] at h
    subst h
    exact ⟨rfl, rfl⟩
  | some bytes =>
    obtain ⟨conn, loop, hsend, rfl⟩ := runSend_eq_some hload h
    exact ⟨rfl, (sendInLoop_frame hsend).functors⟩

theorem inFlight_runSend {s s' : Threads τ} {call : Nat} {message : Addr} {len : Nat}
    {w : WriteResult} {bytes : List UInt8} (hload : s.memory.load message len = some bytes)
    (h : s.runSend call message len w = some s') (call' : Nat) (message' : Addr) (len' : Nat)
    : s.InFlight (some (call, message, len)) call' message' len'
      ↔ (call = call' ∧ message = message' ∧ len = len') ∨ s'.InFlight none call' message' len' := by
  obtain ⟨conn, loop, hsend, rfl⟩ := runSend_eq_some hload h
  have hqueue := mem_queue_of_frame (sendInLoop_frame hsend)
    ⟨.sendInLoop message' len', some call'⟩ rfl
  simp only [InFlight, queue, hqueue, Option.some.injEq, Prod.mk.injEq, reduceCtorEq, false_or]

/--
What a step does with the accepted calls: it accepts one more, it executes one of those in flight, or it
leaves them where they are.
-/
inductive CallStep (s s' : Threads τ) : Prop where
  | accept {t : Thread τ} {message : Addr} {len : Nat} {bytes : List UInt8}
    (memory : s'.memory = s.memory) (faulted : s'.faulted = s.faulted)
    (state_ : s.conn.state_ = .kConnected) (load : s.memory.load message len = some bytes)
    (calls : s'.calls = s.calls ++ [⟨t, bytes⟩]) (processed : s'.processed = s.processed)
    (inFlight : ∀ call' message' len', s'.InFlight none call' message' len'
      ↔ (s.calls.length = call' ∧ message = message' ∧ len = len')
        ∨ s.InFlight none call' message' len')
  | execute {call : Nat} {message : Addr} {len : Nat} {bytes : List UInt8}
    (memory : s'.memory = s.memory) (faulted : s'.faulted = s.faulted)
    (load : s.memory.load message len = some bytes) (calls : s'.calls = s.calls)
    (processed : s'.processed =
      if s.conn.state_ = .kDisconnected then s.processed else s.processed ++ [(call, bytes)])
    (inFlight : ∀ call' message' len', s.InFlight none call' message' len'
      ↔ (call = call' ∧ message = message' ∧ len = len') ∨ s'.InFlight none call' message' len')
  | other (memory : s'.memory = s.memory) (faulted : s'.faulted = s.faulted)
    (calls : s'.calls = s.calls)
    (processed : s'.processed = s.processed)
    (inFlight : ∀ call' message' len', s'.InFlight none call' message' len'
      ↔ s.InFlight none call' message' len')

theorem CallStep.runSend {s s₁ s' : Threads τ} {call : Nat} {message : Addr} {len : Nat}
    {w : WriteResult} {bytes : List UInt8} (hload : s.memory.load message len = some bytes)
    (hrun : s₁.runSend call message len w = some s') (hconn : s₁.conn = s.conn)
    (hmemory : s₁.memory = s.memory) (hfaulted : s₁.faulted = s.faulted) (hcalls : s₁.calls = s.calls)
    (hprocessed : s₁.processed = s.processed)
    (hinFlight : ∀ call' message' len', s₁.InFlight (some (call, message, len)) call' message' len'
      ↔ s.InFlight none call' message' len') : CallStep s s' := by
  have hload₁ : s₁.memory.load message len = some bytes := by rw [hmemory, hload]
  have hrest := inFlight_runSend hload₁ hrun
  obtain ⟨conn, loop, hsend, rfl⟩ := runSend_eq_some hload₁ hrun
  apply CallStep.execute
  . exact hmemory
  . exact hfaulted
  . exact hload
  . exact hcalls
  . rw [← hconn, ← hprocessed]
  . intro call' message' len'
    rw [← hinFlight, hrest]

theorem atPc_iff {s : Threads τ} {pc : LoopPc}
    : s.atPc pc = true ↔ s.callers .loop = .idle ∧ s.pc = pc := by
  simp [atPc]

-- what the argument of an accepted call held when the call was made
def contents (s : Threads τ) (call : Nat) : Option (List UInt8) :=
  s.calls[call]?.map Call.contents

/--
The storage of every call in flight is alive and still holds the argument, and what has been processed is
the argument.
-/
structure Sends (s : Threads τ) : Prop where
  batch : s.pc ≠ .functors → s.loop.functors = []
  inFlight : ∀ call message len, s.InFlight none call message len →
    ∃ bytes, s.memory.load message len = some bytes ∧ s.contents call = some bytes
  alive : s.faulted = false
  processed : ∀ call bytes, (call, bytes) ∈ s.processed → s.contents call = some bytes

theorem contents_append {s s' : Threads τ} {c : Call τ} {call : Nat} {bytes : List UInt8}
    (hcalls : s'.calls = s.calls ++ [c]) (h : s.contents call = some bytes)
    : s'.contents call = some bytes := by
  unfold contents at h ⊢
  rw [hcalls]
  rw [Option.map_eq_some_iff] at h ⊢
  obtain ⟨c', hc', heq⟩ := h
  refine ⟨c', ?_, heq⟩
  rw [List.getElem?_append_left]
  . exact hc'
  . exact (List.getElem?_eq_some_iff.mp hc').1

theorem contents_congr {s s' : Threads τ} (h : s'.calls = s.calls) : s'.contents = s.contents := by
  funext call
  simp only [contents, h]

theorem queue_of_established {s : Threads τ} (h : s.Established) : s.queue = [] := by
  obtain ⟨⟨_, _, _, _, l, _, hfunctors, hpending, hnew⟩, _⟩ := h
  simp only [connectEstablished, Option.map_eq_some_iff, Prod.mk.injEq] at hnew
  obtain ⟨_, _, _, heq⟩ := hnew
  simp [queue, ← heq, hfunctors, hpending]

theorem Sends.init {s : Threads τ} (h : s.Established) : s.Sends := by
  have hqueue := queue_of_established h
  obtain ⟨_, hcallers, _, hcalls, hprocessed, hfaulted⟩ := h
  constructor
  . intro _
    exact (List.append_eq_nil_iff.mp hqueue).1
  . simp [InFlight, hcallers, hqueue]
  . exact hfaulted
  . simp [hprocessed]

theorem Sends.callStep {s s' : Threads τ} (h : s.Sends) (hstep : CallStep s s')
    (hbatch : s'.pc ≠ .functors → s'.loop.functors = []) : s'.Sends := by
  cases hstep with
  | accept memory faulted _ load calls processed inFlight =>
    refine ⟨hbatch, ?_, faulted.trans h.alive, ?_⟩
    . intro call message len hin
      rw [inFlight] at hin
      rw [memory]
      cases hin with
      | inl hnew =>
        obtain ⟨rfl, rfl, rfl⟩ := hnew
        exact ⟨_, load, by simp [contents, calls]⟩
      | inr hold =>
        obtain ⟨bytes, hload, hcontents⟩ := h.inFlight call message len hold
        exact ⟨bytes, hload, contents_append calls hcontents⟩
    . intro call bytes hp
      rw [processed] at hp
      exact contents_append calls (h.processed call bytes hp)
  | execute memory faulted load calls processed inFlight =>
    refine ⟨hbatch, ?_, faulted.trans h.alive, ?_⟩
    . intro call message len hin
      rw [contents_congr calls, memory]
      apply h.inFlight
      rw [inFlight]
      exact .inr hin
    . intro call bytes hp
      rw [contents_congr calls]
      rw [processed] at hp
      split at hp
      . exact h.processed call bytes hp
      . rw [List.mem_append, List.mem_singleton] at hp
        cases hp with
        | inl hp => exact h.processed call bytes hp
        | inr hp =>
          simp only [Prod.mk.injEq] at hp
          obtain ⟨bytes', hload, hcontents⟩ := h.inFlight _ _ _ ((inFlight _ _ _).mpr (.inl ⟨rfl, rfl, rfl⟩))
          rw [load, Option.some.injEq] at hload
          rw [hp.1, hp.2, hload]
          exact hcontents
  | other memory faulted calls processed inFlight =>
    refine ⟨hbatch, ?_, faulted.trans h.alive, ?_⟩
    . intro call message len hin
      rw [contents_congr calls, memory]
      exact h.inFlight call message len ((inFlight call message len).mp hin)
    . intro call bytes hp
      rw [contents_congr calls]
      exact h.processed call bytes (processed ▸ hp)

variable [DecidableEq τ]

-- a thread hands its call over to the loop
theorem inFlight_return {s : Threads τ} {t : Thread τ} {call : Nat} {message : Addr} {len : Nat}
    (h : s.callers t = .sending call message len) (call' : Nat) (message' : Addr) (len' : Nat)
    : (s.setCaller t .idle).InFlight (some (call, message, len)) call' message' len'
      ↔ s.InFlight none call' message' len' := by
  have hcallers : (∃ t', (s.setCaller t .idle).callers t' = .sending call' message' len')
      ↔ ∃ t', t' ≠ t ∧ s.callers t' = .sending call' message' len' := by
    apply exists_congr
    intro t'
    by_cases heq : t' = t
    . subst heq
      simp [setCaller]
    . simp [setCaller, heq]
  unfold InFlight
  rw [hcallers]
  simp only [Option.some.injEq, Prod.mk.injEq, reduceCtorEq, false_or, setCaller, queue]
  grind

-- a step of a thread that is not in `send` and does not begin a call of it
theorem inFlight_setCaller {s : Threads τ} {t : Thread τ} {c : Caller}
    (ht : ∀ call message len, s.callers t ≠ .sending call message len)
    (hc : ∀ call message len, c ≠ .sending call message len) (running : Option (Nat × Addr × Nat))
    (call' : Nat) (message' : Addr) (len' : Nat)
    : (s.setCaller t c).InFlight running call' message' len'
      ↔ s.InFlight running call' message' len' := by
  have hcallers : ∀ t', (s.setCaller t c).callers t' = .sending call' message' len'
      ↔ s.callers t' = .sending call' message' len' := by
    intro t'
    by_cases heq : t' = t
    . subst heq
      simp [setCaller, ht, hc]
    . simp [setCaller, heq]
  unfold InFlight
  rw [exists_congr hcallers]
  rfl

-- a thread begins a call of `send`
theorem inFlight_send {s : Threads τ} {t : Thread τ} {call : Nat} {message : Addr} {len : Nat}
    (ht : ∀ call message len, s.callers t ≠ .sending call message len)
    (call' : Nat) (message' : Addr) (len' : Nat)
    : (s.setCaller t (.sending call message len)).InFlight none call' message' len'
      ↔ (call = call' ∧ message = message' ∧ len = len') ∨ s.InFlight none call' message' len' := by
  have hcallers : (∃ t', (s.setCaller t (.sending call message len)).callers t' =
        .sending call' message' len')
      ↔ (call = call' ∧ message = message' ∧ len = len')
        ∨ ∃ t', s.callers t' = .sending call' message' len' := by
    constructor
    . intro hexists
      obtain ⟨t', ht'⟩ := hexists
      by_cases heq : t' = t
      . subst heq
        simp [setCaller] at ht'
        exact .inl ht'
      . simp only [setCaller, Function.update_of_ne heq] at ht'
        exact .inr ⟨t', ht'⟩
    . intro hor
      cases hor with
      | inl hnew => exact ⟨t, by simp [setCaller, hnew]⟩
      | inr hold =>
        obtain ⟨t', ht'⟩ := hold
        have hne : t' ≠ t := by
          rintro rfl
          exact ht _ _ _ ht'
        exact ⟨t', by simp [setCaller, hne, ht']⟩
  unfold InFlight
  rw [hcallers]
  simp only [reduceCtorEq, false_or, queue, setCaller, or_assoc]

theorem ne_sending_of_mayCall {s : Threads τ} {t : Thread τ} (h : s.mayCall t = true)
    (call : Nat) (message : Addr) (len : Nat) : s.callers t ≠ .sending call message len := by
  simp only [mayCall, Bool.and_eq_true, decide_eq_true_eq] at h
  simp [h.1]

theorem next_calls {s s' : Threads τ} {a : Label τ} (h : s.Sends) (henabled : s.enabled a = true)
    (hnext : s.next a = some s') : CallStep s s' := by
  cases a with
  | send t message len =>
    have ht := ne_sending_of_mayCall henabled
    simp only [next, Option.map_eq_some_iff] at hnext
    obtain ⟨contents, hload, rfl⟩ := hnext
    split
    . next hstate => exact .accept rfl rfl hstate hload rfl rfl (inFlight_send ht)
    . exact .other rfl rfl rfl rfl (fun _ _ _ => Iff.rfl)
  | sendRun t w =>
    simp only [next] at hnext
    split at hnext
    . next call message len hcaller =>
      obtain ⟨bytes, hload, _⟩ := h.inFlight call message len (.inr (.inl ⟨t, hcaller⟩))
      split at hnext
      . exact .runSend hload hnext rfl rfl rfl rfl rfl (inFlight_return hcaller)
      . simp only [Option.some.injEq] at hnext
        subst hnext
        apply CallStep.other
        . rfl
        . rfl
        . rfl
        . rfl
        intro call' message' len'
        rw [← inFlight_return hcaller]
        exact inFlight_push (s := s.setCaller t .idle) call' message' len'
    . simp at hnext
  | shutdown t =>
    have ht := ne_sending_of_mayCall henabled
    simp only [next, Option.some.injEq] at hnext
    subst hnext
    split
    . exact .other rfl rfl rfl rfl (inFlight_setCaller ht (by simp) none)
    . exact .other rfl rfl rfl rfl (fun _ _ _ => Iff.rfl)
  | shutdownStore t =>
    simp only [enabled, decide_eq_true_eq] at henabled
    simp only [next, Option.some.injEq] at hnext
    subst hnext
    exact .other rfl rfl rfl rfl (inFlight_setCaller (by simp [henabled]) (by simp) none)
  | shutdownRun t =>
    simp only [enabled, decide_eq_true_eq] at henabled
    have hcaller := inFlight_setCaller (c := .idle) (s := s) (t := t) (by simp [henabled]) (by simp) none
    simp only [next] at hnext
    split at hnext
    . simp only [Option.some.injEq] at hnext
      subst hnext
      exact .other rfl rfl rfl rfl hcaller
    . simp only [Option.some.injEq] at hnext
      subst hnext
      apply CallStep.other
      . rfl
      . rfl
      . rfl
      . rfl
      intro call' message' len'
      rw [← hcaller]
      apply inFlight_congr (s := s.setCaller t .idle)
      . rfl
      . simp [queue, setCaller, Job.bind]
  | handleWrite w =>
    simp only [next, Option.map_eq_some_iff] at hnext
    obtain ⟨⟨conn, loop, drained⟩, hdrain, rfl⟩ := hnext
    apply CallStep.other
    . rfl
    . rfl
    . rfl
    . rfl
    intro call' message' len'
    apply inFlight_congr (s := s)
    . rfl
    . exact mem_queue_of_frame (drain_frame hdrain) _ rfl
  | testState | endFunctors =>
    simp only [next, Option.some.injEq] at hnext
    subst hnext
    exact .other rfl rfl rfl rfl (fun _ _ _ => Iff.rfl)
  | swap =>
    simp only [next, Option.some.injEq] at hnext
    subst hnext
    simp only [enabled, atPc, Bool.and_eq_true, decide_eq_true_eq] at henabled
    apply CallStep.other
    . rfl
    . rfl
    . rfl
    . rfl
    intro call' message' len'
    apply inFlight_congr (s := s)
    . rfl
    . simp [queue, EventLoop.swapFunctors, h.batch (by simp [henabled.2])]
  | runFunctor w =>
    simp only [next] at hnext
    split at hnext
    . simp at hnext
    . next job rest hfunctors =>
      split at hnext
      . next message len call =>
        obtain ⟨bytes, hload, _⟩ := h.inFlight call message len (.inr (.inr (by simp [queue, hfunctors])))
        exact .runSend hload hnext rfl rfl rfl rfl rfl (inFlight_pop hfunctors)
      . simp only [Option.some.injEq] at hnext
        subst hnext
        exact .other rfl rfl rfl rfl (inFlight_skip hfunctors (by simp) none)
      . next hjob _ =>
        simp only [Option.some.injEq] at hnext
        subst hnext
        exact .other rfl rfl rfl rfl (inFlight_skip hfunctors (by simpa using hjob) none)

-- outside `doPendingFunctors` no batch is left over
theorem next_batch {s s' : Threads τ} {a : Label τ} (h : s.pc ≠ .functors → s.loop.functors = [])
    (henabled : s.enabled a = true) (hnext : s.next a = some s')
    : s'.pc ≠ .functors → s'.loop.functors = [] := by
  intro hpc
  cases a with
  | send t message len =>
    simp only [next, Option.map_eq_some_iff] at hnext
    obtain ⟨contents, _, hnext⟩ := hnext
    split at hnext
    all_goals
      subst hnext
      exact h hpc
  | shutdown t =>
    simp only [next] at hnext
    split at hnext
    all_goals
      simp only [Option.some.injEq] at hnext
      subst hnext
      exact h hpc
  | shutdownStore t =>
    simp only [next, Option.some.injEq] at hnext
    subst hnext
    exact h hpc
  | sendRun t w =>
    simp only [next] at hnext
    split at hnext
    . split at hnext
      . obtain ⟨hsame, hfunctors⟩ := runSend_batch hnext
        rw [hfunctors]
        rw [hsame] at hpc
        exact h hpc
      . simp only [Option.some.injEq] at hnext
        subst hnext
        simpa using h hpc
    . simp at hnext
  | shutdownRun t =>
    simp only [next] at hnext
    split at hnext
    . simp only [Option.some.injEq] at hnext
      subst hnext
      exact h hpc
    . simp only [Option.some.injEq] at hnext
      subst hnext
      simpa using h hpc
  | handleWrite w =>
    simp only [next, Option.map_eq_some_iff] at hnext
    obtain ⟨⟨conn, loop, drained⟩, hdrain, rfl⟩ := hnext
    have hpc := (atPc_iff.mp (Bool.and_eq_true_iff.mp henabled).1).2
    rw [(drain_frame hdrain).functors]
    apply h
    simp [hpc]
  | testState =>
    simp only [next, Option.some.injEq] at hnext
    subst hnext
    apply h
    simp [(atPc_iff.mp henabled).2]
  | swap =>
    simp only [next, Option.some.injEq] at hnext
    subst hnext
    simp at hpc
  | runFunctor w =>
    have hfunctors := (atPc_iff.mp henabled).2
    simp only [next] at hnext
    split at hnext
    . simp at hnext
    . split at hnext
      . rw [(runSend_batch hnext).1] at hpc
        exact absurd hfunctors hpc
      all_goals
        simp only [Option.some.injEq] at hnext
        subst hnext
        exact absurd hfunctors hpc
  | endFunctors =>
    simp only [next, Option.some.injEq] at hnext
    subst hnext
    exact List.isEmpty_iff.mp (Bool.and_eq_true_iff.mp henabled).2

theorem Sends.step {s s' : Threads τ} {a : Label τ} (h : s.Sends) (henabled : s.enabled a = true)
    (hnext : s.next a = some s') : s'.Sends :=
  h.callStep (next_calls h henabled hnext) (next_batch h.batch henabled hnext)

end Threads

end TcpConnection

end MyMuduo
