import MyMuduo.TcpServer.Balance
import MyMuduo.TcpServer.Continuing
import MyMuduo.Transition.Execution

/-!
This module contains that the loops of a server get on with their work: each functor is executed at last, and what
epoll has reported is handled at last.
-/

namespace MyMuduo

namespace TcpServer

open TcpConnection (Phase)

namespace Label

-- the thread of loop `k` goes on in its loop
def ofLoop (k : Nat) : Label → Bool
  | .poll m _ | .handleEvent m | .callback m _ _ | .swap m | .runFunctor m _ _ | .endFunctors m => m = k
  | _ => false

end Label

-- how far it is to the next swap
def phaseRank : Phase → Nat
  | .events => 1
  | .polling => 2
  | .functors => 3

namespace ServerLoops

/--
How far loop `k` is from executing `cb`: first the swap has to come, and then the functors ahead of it.
-/
def rank (k : Nat) (cb : ServerTask) (s : ServerLoops) : Nat × Nat × Nat :=
  let l := s.loops k
  if cb ∈ l.loop.functors then
    (0, l.loop.functors.idxOf cb, 0)
  else
    (phaseRank l.phase, l.active.length + l.loop.functors.length, l.todo.length)

/--
What a step leaves of loop `k` that is none of its own.
-/
structure Elsewhere (k : Nat) (s s' : ServerLoops) : Prop where
  phase : (s'.loops k).phase = (s.loops k).phase
  active : (s'.loops k).active = (s.loops k).active
  todo : (s'.loops k).todo = (s.loops k).todo
  functors : (s'.loops k).loop.functors = (s.loops k).loop.functors
  pendingFunctors : (s.loops k).loop.pendingFunctors <+: (s'.loops k).loop.pendingFunctors

variable {s s' s₁ : ServerLoops} {i k : Nat} {x : Accepted} {cb : ServerTask} {a : Label}

theorem Elsewhere.of_eq (h : s'.loops k = s.loops k) : Elsewhere k s s' :=
  ⟨by rw [h], by rw [h], by rw [h], by rw [h], h ▸ List.prefix_refl _⟩

theorem Elsewhere.trans (h₁ : Elsewhere k s s₁) (h₂ : Elsewhere k s₁ s') : Elsewhere k s s' :=
  ⟨h₂.phase.trans h₁.phase, h₂.active.trans h₁.active, h₂.todo.trans h₁.todo, h₂.functors.trans h₁.functors,
    h₁.pendingFunctors.trans h₂.pendingFunctors⟩

theorem Acted.elsewhere (h : Acted i x s s') (k : Nat) : Elsewhere k s s' := by
  obtain ⟨cbs, happended, _⟩ := h.queued k
  refine ⟨h.phase k, h.active k, h.todo k, happended.functors, ?_⟩
  rw [happended.pendingFunctors]
  exact List.prefix_append _ _

theorem Elsewhere.rank (h : Elsewhere k s s') (cb : ServerTask) : rank k cb s' = rank k cb s := by
  simp only [ServerLoops.rank, h.phase, h.active, h.todo, h.functors]

theorem Elsewhere.mem_queueOf (h : Elsewhere k s s') (hmem : cb ∈ queueOf (s.loops k).loop)
    : cb ∈ queueOf (s'.loops k).loop := by
  simp only [queueOf, List.mem_append, h.functors] at hmem ⊢
  exact hmem.imp_right fun hpending => h.pendingFunctors.subset hpending

theorem elsewhere_callback {m : Nat} {n : Int} {w : WriteResult} (hnext : s.callback m n w = some s') (k : Nat)
    : ∃ report todo, (s.loops m).todo = report :: todo ∧ Elsewhere k (s.setTodo m todo) s' := by
  unfold ServerLoops.callback at hnext
  split at hnext
  . cases hnext
  . next i callback todo htodo =>
    simp only [Option.bind_eq_some_iff, Option.map_eq_some_iff] at hnext
    obtain ⟨x, hx, r, hrun, rfl⟩ := hnext
    exact ⟨_, _, htodo, (acted_runCallback _ hrun).elsewhere k⟩

theorem elsewhere_runFunctor {m : Nat} {message : List UInt8} {w : WriteResult} (h : s.Wired)
    (hnext : s.runFunctor m message w = some s') (k : Nat)
    : ∃ cb functors, (s.loops m).loop.functors = cb :: functors ∧ Elsewhere k (s.setFunctors m functors) s' := by
  unfold ServerLoops.runFunctor at hnext
  split at hnext
  . cases hnext
  . next cb functors hfunctors =>
    refine ⟨cb, functors, hfunctors, ?_⟩
    dsimp only at hnext
    split at hnext
    . next i =>
      simp only [Option.some.injEq] at hnext
      subst hnext
      obtain ⟨_, x, hx⟩ := h.removal m i (by simp [queueOf, hfunctors])
      have hx' : (s.setFunctors m functors).conns i = some x := hx
      exact (acted_removeConnectionInLoop hx').elsewhere k
    . next i task =>
      simp only [Option.bind_eq_some_iff, Option.map_eq_some_iff] at hnext
      obtain ⟨x, hx, r, hrun, rfl⟩ := hnext
      exact (acted_runTask _ hrun).elsewhere k

theorem elsewhere (h : s.Wired) (ha : a.ofLoop k = false) (hstep : system.step s a = some s') : Elsewhere k s s' := by
  obtain ⟨henabled, hnext⟩ := LTS.guarded_step.mp hstep
  cases a with
  | newConnection sockfd highWaterMark =>
    simp only [next, ServerLoops.newConnection] at hnext
    have hinserted : Elsewhere k s (s.insertConnection (s.accepted sockfd highWaterMark)) := .of_eq rfl
    split at hnext
    . simp only [Option.map_eq_some_iff] at hnext
      obtain ⟨r, hrun, rfl⟩ := hnext
      exact hinserted.trans ((acted_runTask _ hrun).elsewhere k)
    . simp only [Option.some.injEq] at hnext
      subst hnext
      have hconn : (s.insertConnection (s.accepted sockfd highWaterMark)).conns s.server.nextConnId_ =
          some (s.accepted sockfd highWaterMark) := by
        simp [ServerLoops.insertConnection]
      exact hinserted.trans ((acted_queueInLoop hconn 0 (.inl ⟨⟨_, rfl⟩, rfl⟩)).elsewhere k)
  | handleEvent m =>
    have hne : k ≠ m := fun heq => by simp [Label.ofLoop, heq] at ha
    simp only [next, ServerLoops.handleEvent] at hnext
    split at hnext
    . cases hnext
    . simp only [Option.map_eq_some_iff] at hnext
      obtain ⟨_, _, rfl⟩ := hnext
      exact .of_eq (Function.update_of_ne hne _ _)
  | callback m n w =>
    have hne : k ≠ m := fun heq => by simp [Label.ofLoop, heq] at ha
    obtain ⟨_, todo, _, helsewhere⟩ := elsewhere_callback hnext k
    have hpopped : Elsewhere k s (s.setTodo m todo) := .of_eq (Function.update_of_ne hne _ _)
    exact hpopped.trans helsewhere
  | runFunctor m message w =>
    have hne : k ≠ m := fun heq => by simp [Label.ofLoop, heq] at ha
    obtain ⟨_, functors, _, helsewhere⟩ := elsewhere_runFunctor h hnext k
    have hpopped : Elsewhere k s (s.setFunctors m functors) := .of_eq (Function.update_of_ne hne _ _)
    exact hpopped.trans helsewhere
  | send i isInLoopThread message contents w =>
    simp only [next, Option.bind_eq_some_iff, Option.map_eq_some_iff] at hnext
    obtain ⟨x, hx, r, hsend, rfl⟩ := hnext
    exact (acted_send hsend).elsewhere k
  | shutdown i isInLoopThread =>
    simp only [next, Option.map_eq_some_iff] at hnext
    obtain ⟨x, hx, rfl⟩ := hnext
    exact (acted_shutdown rfl).elsewhere k
  | forceClose i isInLoopThread =>
    simp only [next, Option.map_eq_some_iff] at hnext
    obtain ⟨x, hx, rfl⟩ := hnext
    exact (acted_forceClose rfl).elsewhere k
  | destroyConnection i =>
    simp only [enabled, Bool.and_eq_true, Option.any_eq_true] at henabled
    obtain ⟨x, hx, _⟩ := henabled.2
    exact (acted_destroyConnection hx hnext).elsewhere k
  | poll m | endFunctors m =>
    have hne : k ≠ m := fun heq => by simp [Label.ofLoop, heq] at ha
    simp only [next, Option.some.injEq] at hnext
    subst hnext
    exact .of_eq (Function.update_of_ne hne _ _)
  | swap m =>
    have hne : k ≠ m := fun heq => by simp [Label.ofLoop, heq] at ha
    simp only [next, Option.some.injEq] at hnext
    subst hnext
    rw [swap_eq]
    exact .of_eq (Function.update_of_ne hne _ _)
  | destroy | endDestroy =>
    simp only [next, Option.some.injEq] at hnext
    subst hnext
    exact .of_eq rfl

theorem rank_of_functors (hmem : cb ∈ (s.loops k).loop.functors)
    : rank k cb s = (0, (s.loops k).loop.functors.idxOf cb, 0) := by
  simp only [rank, hmem, if_true]

theorem rank_of_pending (hmem : cb ∉ (s.loops k).loop.functors)
    : rank k cb s = (phaseRank (s.loops k).phase, (s.loops k).active.length + (s.loops k).loop.functors.length,
        (s.loops k).todo.length) := by
  simp only [rank, hmem, if_false]

/--
Nearer in the phase, in what is left of it, or in the callbacks of one `handleEvent`.
-/
def Nearer : Nat × Nat × Nat → Nat × Nat × Nat → Prop :=
  Prod.Lex (· < ·) (Prod.Lex (· < ·) (· < ·))

theorem nearer_wf : WellFounded Nearer :=
  Nat.lt_wfRel.wf.prod_lex (Nat.lt_wfRel.wf.prod_lex Nat.lt_wfRel.wf)

/--
The own steps of a loop bring a functor nearer that waits there, unless they execute it.
-/
theorem nearer (h : s.Wired) (ha : a.ofLoop k = true) (hmem : cb ∈ queueOf (s.loops k).loop)
    (hstep : system.step s a = some s')
    : (∃ message w functors, a = .runFunctor k message w ∧ (s.loops k).loop.functors = cb :: functors)
        ∨ cb ∈ queueOf (s'.loops k).loop ∧ Nearer (rank k cb s') (rank k cb s) := by
  obtain ⟨henabled, hnext⟩ := LTS.guarded_step.mp hstep
  have hhandling := h.handling k
  cases a with
  | poll m reports =>
    obtain rfl : m = k := of_decide_eq_true ha
    simp only [enabled, Bool.and_eq_true, decide_eq_true_eq] at henabled
    have hphase := henabled.1.1.2
    have hempty := hhandling.functors (by simp [hphase])
    simp only [next, Option.some.injEq] at hnext
    subst hnext
    refine .inr ⟨by simpa using hmem, ?_⟩
    rw [rank_of_pending (by simp [hempty]), rank_of_pending (by simp [hempty])]
    refine .left _ _ ?_
    simp [hphase, phaseRank]
  | handleEvent m =>
    obtain rfl : m = k := of_decide_eq_true ha
    simp only [next, ServerLoops.handleEvent] at hnext
    split at hnext
    . cases hnext
    . next i revents active hactive =>
      have hempty : (s.loops m).loop.functors = [] := by
        apply hhandling.functors
        intro hphase
        rw [(hhandling.idle (by simp [hphase])).1] at hactive
        cases hactive
      simp only [Option.map_eq_some_iff] at hnext
      obtain ⟨_, _, rfl⟩ := hnext
      refine .inr ⟨by simpa using hmem, ?_⟩
      rw [rank_of_pending (by simp [hempty]), rank_of_pending (by simp [hempty])]
      simp only [Function.update_self, hactive, List.length_cons]
      exact .right _ (.left _ _ (by omega))
  | callback m n w =>
    obtain rfl : m = k := of_decide_eq_true ha
    obtain ⟨report, todo, htodo, helsewhere⟩ := elsewhere_callback hnext m
    have hempty : (s.loops m).loop.functors = [] := by
      apply hhandling.functors
      intro hphase
      rw [(hhandling.idle (by simp [hphase])).2] at htodo
      cases htodo
    refine .inr ⟨helsewhere.mem_queueOf (by simpa [setTodo] using hmem), ?_⟩
    rw [helsewhere.rank, rank_of_pending (by simp [setTodo, hempty]), rank_of_pending (by simp [hempty])]
    simp only [setTodo, Function.update_self, htodo, List.length_cons]
    exact .right _ (.right _ (Nat.lt_succ_self _))
  | swap m =>
    obtain rfl : m = k := of_decide_eq_true ha
    simp only [enabled, Bool.and_eq_true, decide_eq_true_eq] at henabled
    have hphase := henabled.1.1.2
    have hempty := hhandling.functors (by simp [hphase])
    have hpending : cb ∈ (s.loops m).loop.pendingFunctors := by
      simpa [queueOf, hempty] using hmem
    simp only [next, Option.some.injEq] at hnext
    subst hnext
    rw [swap_eq]
    refine .inr ⟨by simpa [queueOf, EventLoop.swapFunctors] using hpending, ?_⟩
    rw [rank_of_functors (by simpa [EventLoop.swapFunctors] using hpending), rank_of_pending (by simp [hempty])]
    refine .left _ _ ?_
    simp [hphase, phaseRank]
  | runFunctor m message w =>
    obtain rfl : m = k := of_decide_eq_true ha
    obtain ⟨cb', functors, hfunctors, helsewhere⟩ := elsewhere_runFunctor h hnext m
    by_cases heq : cb' = cb
    . subst heq
      exact .inl ⟨message, w, functors, rfl, hfunctors⟩
    . have hpopped : ((s.setFunctors m functors).loops m).loop = { (s.loops m).loop with functors := functors } := by
        simp [setFunctors]
      have hmem' : cb ∈ queueOf ((s.setFunctors m functors).loops m).loop := by
        simpa [queueOf, hpopped, hfunctors, Ne.symm heq] using hmem
      refine .inr ⟨helsewhere.mem_queueOf hmem', ?_⟩
      rw [helsewhere.rank]
      by_cases hbatch : cb ∈ functors
      . rw [rank_of_functors (by simpa [hpopped] using hbatch), rank_of_functors (by simp [hfunctors, hbatch]), hpopped,
          hfunctors, List.idxOf_cons_ne _ heq]
        exact .right _ (.left _ _ (Nat.lt_succ_self _))
      . rw [rank_of_pending (by simpa [hpopped] using hbatch),
          rank_of_pending (by simp [hfunctors, hbatch, Ne.symm heq]), hpopped, hfunctors]
        simp only [setFunctors, phase_setLoop, active_setLoop, List.length_cons]
        exact .right _ (.left _ _ (by omega))
  | endFunctors m =>
    obtain rfl : m = k := of_decide_eq_true ha
    simp only [enabled, Bool.and_eq_true, decide_eq_true_eq, List.isEmpty_iff] at henabled
    obtain ⟨⟨_, hphase⟩, hempty⟩ := henabled
    simp only [next, Option.some.injEq] at hnext
    subst hnext
    refine .inr ⟨by simpa [setPhase] using hmem, ?_⟩
    rw [rank_of_pending (by simp [setPhase, hempty]), rank_of_pending (by simp [hempty])]
    refine .left _ _ ?_
    simp [setPhase, hphase, phaseRank]
  | newConnection | send | shutdown | forceClose | destroy | destroyConnection | endDestroy => cases ha

/--
The thread of each loop goes on.
-/
def Fair (E : system.Execution) : Prop :=
  ∀ n k, (E.state n).runs k = true → ∃ m, n ≤ m ∧ (E.label m).ofLoop k = true

theorem runs_of_conn (hs : system.Reachable s) (hrunning : s.teardown = .running) (hx : s.conns i = some x)
    : s.runs x.loop_ = true := by
  have hloop := (dealt_reachable hs).loop_ i
  have hle : x.loop_ ≤ s.server.threadPool_.loops_ := by
    rw [hx, Option.map_some] at hloop
    split at hloop
    . simp only [Option.some.injEq] at hloop
      rw [hloop, dealt]
      split
      . exact Nat.zero_le _
      . next hne => exact Nat.mod_lt _ (Nat.pos_of_ne_zero hne)
    . cases hloop
  simp [runs, hle, hrunning]

-- a functor waits only on a loop that the server has
theorem runs_of_queued (hs : system.Reachable s) (hrunning : s.teardown = .running)
    (hmem : cb ∈ queueOf (s.loops k).loop) : s.runs k = true := by
  have hwired := wired_reachable hs
  cases cb with
  | removeConnectionInLoop i =>
    rw [(hwired.removal k i hmem).1]
    simp [runs, hrunning]
  | conn i task =>
    obtain ⟨x, hx, rfl⟩ := hwired.conn k i task hmem
    exact runs_of_conn hs hrunning hx

section

variable {E : system.Execution} (hrunning : ∀ n, (E.state n).teardown = .running) (hfair : Fair E)
include hrunning hfair

/--
A functor that waits is executed at last.
-/
theorem served {Q : ServerLoops → Prop} (k : Nat) (cb : ServerTask)
    (hexec : ∀ n message w functors, ((E.state n).loops k).loop.functors = cb :: functors →
      (E.state n).runFunctor k message w = some (E.state (n + 1)) → Q (E.state (n + 1)))
    : E.LeadsTo (fun s => cb ∈ queueOf (s.loops k).loop) Q := by
  refine LTS.Execution.leadsTo_of_rank nearer_wf (rank k cb) (fun a => a.ofLoop k = true) ?_ ?_
  . intro n hmem
    have hwired := wired_reachable (E.reachable n)
    have hstep := E.step n
    by_cases ha : (E.label n).ofLoop k = true
    . obtain ⟨message, w, functors, hlabel, hfunctors⟩ | hnearer := nearer hwired ha hmem hstep
      . rw [hlabel] at hstep
        exact .inl (hexec n message w functors hfunctors (LTS.guarded_step.mp hstep).2)
      . exact .inr ⟨hnearer.1, .inl hnearer.2⟩
    . have helsewhere := elsewhere hwired (by simpa using ha) hstep
      exact .inr ⟨helsewhere.mem_queueOf hmem, .inr ⟨helsewhere.rank cb, ha⟩⟩
  . intro n hwaits
    exact hfair n k (runs_of_queued (E.reachable n) (hrunning n) (hwaits n (Nat.le_refl n)))

end

/-
The events that epoll has reported.
-/

-- the callbacks that `handleEvent` runs for a connection
def dispatched (revents : Events) : List Callback :=
  { Channel.new 0 0 [.read, .write, .close, .error] with revents := revents }.handleEventWithGuard

theorem Subscribed.dispatched (h : s.Subscribed) (hx : s.conns i = some x) (revents : Events)
    : { x.conn.channel with revents := revents }.handleEventWithGuard = dispatched revents := by
  simp only [Channel.handleEventWithGuard, h i x hx]
  rfl

theorem close_mem_dispatched {revents : Events} (hhup : revents &&& EPOLLHUP ≠ 0) (hin : revents &&& EPOLLIN = 0)
    : .close ∈ dispatched revents := by
  simp only [ServerLoops.dispatched, Channel.handleEventWithGuard, List.mem_append]
  refine .inl (.inl (.inl ?_))
  rw [decide_eq_true hhup, decide_eq_true hin]
  exact List.mem_cons_self

/--
`callback` of the connection is still to come in the events that loop `k` handles.
-/
def Reported (k i : Nat) (callback : Callback) (s : ServerLoops) : Prop :=
  (∃ revents, (i, revents) ∈ (s.loops k).active ∧ callback ∈ dispatched revents) ∨ (i, callback) ∈ (s.loops k).todo

variable {callback : Callback}

theorem Elsewhere.reported (h : Elsewhere k s s') (hreported : s.Reported k i callback) : s'.Reported k i callback := by
  unfold Reported
  rw [h.active, h.todo]
  exact hreported

theorem Reported.events (h : s.Reported k i callback) (hwired : s.Wired) : (s.loops k).phase = .events := by
  by_contra hne
  obtain ⟨hactive, htodo⟩ := (hwired.handling k).idle hne
  simp [Reported, hactive, htodo] at h

/--
The own steps of a loop bring a callback nearer that its events call for, unless they invoke it.
-/
theorem Reported.nearer (h : s.Reported k i callback) (hwired : s.Wired) (hsubscribed : s.Subscribed)
    (ha : a.ofLoop k = true) (hstep : system.step s a = some s')
    : (∃ n w todo, a = .callback k n w ∧ (s.loops k).todo = (i, callback) :: todo)
        ∨ s'.Reported k i callback
          ∧ Prod.Lex (· < ·) (· < ·) ((s'.loops k).active.length, (s'.loops k).todo.length)
            ((s.loops k).active.length, (s.loops k).todo.length) := by
  obtain ⟨henabled, hnext⟩ := LTS.guarded_step.mp hstep
  have hphase := h.events hwired
  cases a with
  | poll m | runFunctor m | endFunctors m =>
    obtain rfl : m = k := of_decide_eq_true ha
    simp [enabled, hphase] at henabled
  | swap m =>
    obtain rfl : m = k := of_decide_eq_true ha
    simp only [enabled, Bool.and_eq_true, List.isEmpty_iff] at henabled
    simp [Reported, henabled.1.2, henabled.2] at h
  | handleEvent m =>
    obtain rfl : m = k := of_decide_eq_true ha
    simp only [enabled, Bool.and_eq_true, List.isEmpty_iff] at henabled
    have hempty := henabled.2
    simp only [next, ServerLoops.handleEvent] at hnext
    split at hnext
    . cases hnext
    . next j revents active hactive =>
      simp only [Option.map_eq_some_iff] at hnext
      obtain ⟨x, hx, rfl⟩ := hnext
      simp only [Reported, hactive, hempty, List.mem_cons, List.not_mem_nil, or_false] at h
      refine .inr ⟨?_, ?_⟩
      . simp only [Reported, Function.update_self, hsubscribed.dispatched hx]
        obtain ⟨revents', heq | hmem, hcallback⟩ := h
        . obtain ⟨rfl, rfl⟩ := Prod.mk.inj heq
          exact .inr (List.mem_map.mpr ⟨callback, hcallback, rfl⟩)
        . exact .inl ⟨revents', hmem, hcallback⟩
      . simp only [Function.update_self, hactive, List.length_cons]
        exact .left _ _ (Nat.lt_succ_self _)
  | callback m n w =>
    obtain rfl : m = k := of_decide_eq_true ha
    obtain ⟨report, todo, htodo, helsewhere⟩ := elsewhere_callback hnext m
    by_cases heq : report = (i, callback)
    . subst heq
      exact .inl ⟨n, w, todo, rfl, htodo⟩
    . have hpopped : (s.setTodo m todo).Reported m i callback := by
        simp only [Reported, htodo, List.mem_cons, Ne.symm heq, false_or] at h
        simpa only [Reported, setTodo, Function.update_self] using h
      refine .inr ⟨helsewhere.reported hpopped, ?_⟩
      rw [helsewhere.active, helsewhere.todo]
      simp only [setTodo, Function.update_self, htodo, List.length_cons]
      exact .right _ (Nat.lt_succ_self _)
  | newConnection | send | shutdown | forceClose | destroy | destroyConnection | endDestroy => cases ha

section

variable {E : system.Execution} (hrunning : ∀ n, (E.state n).teardown = .running) (hfair : Fair E)
include hrunning hfair

/--
What epoll has reported is handled at last.
-/
theorem handled {Q : ServerLoops → Prop} (k i : Nat) (callback : Callback)
    (hexec : ∀ n r w todo, ((E.state n).loops k).todo = (i, callback) :: todo →
      (E.state n).callback k r w = some (E.state (n + 1)) → Q (E.state (n + 1)))
    : E.LeadsTo (Reported k i callback) Q := by
  refine LTS.Execution.leadsTo_of_rank (Nat.lt_wfRel.wf.prod_lex Nat.lt_wfRel.wf)
    (fun s => ((s.loops k).active.length, (s.loops k).todo.length)) (fun a => a.ofLoop k = true) ?_ ?_
  . intro n hreported
    have hwired := wired_reachable (E.reachable n)
    have hstep := E.step n
    by_cases ha : (E.label n).ofLoop k = true
    . obtain ⟨r, w, todo, hlabel, htodo⟩ | hnearer :=
        hreported.nearer hwired (subscribed_reachable (E.reachable n)) ha hstep
      . rw [hlabel] at hstep
        exact .inl (hexec n r w todo htodo (LTS.guarded_step.mp hstep).2)
      . exact .inr ⟨hnearer.1, .inl hnearer.2⟩
    . have helsewhere := elsewhere hwired (by simpa using ha) hstep
      refine .inr ⟨helsewhere.reported hreported, .inr ⟨?_, ha⟩⟩
      rw [helsewhere.active, helsewhere.todo]
  . intro n hwaits
    refine hfair n k ?_
    have hwired := wired_reachable (E.reachable n)
    obtain ⟨revents, hmem, _⟩ | hmem := hwaits n (Nat.le_refl n)
    . obtain ⟨x, hx, rfl⟩ := hwired.active k _ hmem
      exact runs_of_conn (E.reachable n) (hrunning n) hx
    . obtain ⟨x, hx, rfl⟩ := hwired.todo k _ hmem
      exact runs_of_conn (E.reachable n) (hrunning n) hx

end

end ServerLoops

end TcpServer

end MyMuduo
