import MyMuduo.TcpConnection.Calls

/-!
This module contains what becomes of a string after `send` has returned: the queued `sendInLoop` holds
its address, so the bytes that it processes are those of the argument when the storage stays alive and
as it is until then.
-/

namespace MyMuduo

namespace TcpConnection

open EventLoop (Thread)

namespace Threads

variable {τ : Type}

/--
Besides the steps of the connection: a thread that is not in a call stores a byte, because it modifies
the string, or because the storage has another owner by now; it destroys what lives in a range, or gives
the range to a new string; and the loop thread closes the connection.
-/
inductive StorageLabel (τ : Type) where
  | step (a : Label τ)
  | store (t : Thread τ) (addr : Addr) (value : UInt8)
  | free (t : Thread τ) (addr : Addr) (len : Nat)
  | alloc (t : Thread τ) (addr : Addr) (contents : List UInt8)
  | close

-- the byte is one of a string whose `sendInLoop` has not been executed
def Awaited (s : Threads τ) (addr : Addr) : Prop :=
  ∃ call message len, s.InFlight none call message len ∧ message ≤ addr ∧ addr < message + len

-- nobody changes or destroys a string between the call of `send` that has it as argument and its `sendInLoop`
def keepsSent (s : Threads τ) : StorageLabel τ → Prop
  | .store _ addr value => s.Awaited addr → s.memory addr = some value
  | .free _ addr len => ∀ a, addr ≤ a → a < addr + len → ¬s.Awaited a
  | _ => True

theorem Sends.withMemory {s : Threads τ} (h : s.Sends) {m : Memory UInt8}
    (hload : ∀ call message len bytes, s.InFlight none call message len →
      s.memory.load message len = some bytes → m.load message len = s.memory.load message len)
    : Sends { s with memory := m } :=
  { h with
    inFlight := by
      intro call message len hin
      obtain ⟨bytes, hbytes, hcontents⟩ := h.inFlight call message len hin
      refine ⟨bytes, ?_, hcontents⟩
      rw [← hbytes]
      exact hload call message len bytes hin hbytes }

variable [DecidableEq τ]

-- nothing is known of a process that has read storage that was not alive
def storageEnabled (s : Threads τ) (a : StorageLabel τ) : Bool :=
  !s.faulted &&
    match a with
    | .step a => s.enabled a
    | .store t addr _ => s.callers t = .idle && (s.memory addr).isSome
    | .free t addr len => s.callers t = .idle && (s.memory.load addr len).isSome
    | .alloc t addr contents => s.callers t = .idle && s.memory.isDead addr contents.length
    | .close => s.callers .loop = .idle && s.pc ≠ .drained

def storageNext (s : Threads τ) : StorageLabel τ → Option (Threads τ)
  | .step a => s.next a
  | .store _ addr value => some { s with memory := s.memory.store addr value }
  | .free _ addr len => some { s with memory := s.memory.free addr len }
  | .alloc _ addr contents => some { s with memory := s.memory.alloc addr contents }
  | .close =>
    (s.conn.channel.disableAll s.loop.poller).map fun (poller, channel) =>
      { s with
          conn := { s.conn.setState .kDisconnected with channel := channel }
          loop := { s.loop with poller := poller } }

def storageSystem (τ : Type) [DecidableEq τ] : LTS (Threads τ) (StorageLabel τ) :=
  .guarded Established storageEnabled storageNext

theorem Sends.storageStep {s s' : Threads τ} {a : StorageLabel τ} (h : s.Sends)
    (hok : s.keepsSent a) (hstep : (storageSystem τ).step s a = some s') : s'.Sends := by
  obtain ⟨henabled, hnext⟩ := LTS.guarded_step.mp hstep
  replace henabled := (Bool.and_eq_true_iff.mp henabled).2
  cases a with
  | step a => exact h.step henabled hnext
  | store t addr value =>
    simp only [storageNext, Option.some.injEq] at hnext
    subst hnext
    apply h.withMemory
    intro call message len bytes hin _
    apply Memory.load_store
    intro hle hlt
    exact hok ⟨call, message, len, hin, hle, hlt⟩
  | free t addr n =>
    simp only [storageNext, Option.some.injEq] at hnext
    subst hnext
    apply h.withMemory
    intro call message len bytes hin _
    apply Memory.load_free
    intro a hle hlt hmem
    exact hok a hle hlt ⟨call, message, len, hin, hmem⟩
  | alloc t addr contents =>
    -- a new string gets storage that no living string has
    simp only [storageNext, Option.some.injEq] at hnext
    subst hnext
    apply h.withMemory
    intro call message len bytes _ hbytes
    exact Memory.load_alloc hbytes (Bool.and_eq_true_iff.mp henabled).2
  | close =>
    simp only [storageNext, Option.map_eq_some_iff] at hnext
    obtain ⟨_, _, rfl⟩ := hnext
    exact { h with }

theorem sent_as_passed {s : Threads τ} (h : (storageSystem τ).ReachableBy keepsSent s)
    : s.faulted = false ∧ ∀ call bytes, (call, bytes) ∈ s.processed → s.contents call = some bytes := by
  have hsends : s.Sends :=
    LTS.ReachableBy.invariant Sends (fun _ => Sends.init) (fun _ _ _ => Sends.storageStep) h
  exact ⟨hsends.alive, hsends.processed⟩

-- another thread sends the string at 100, and the loop thread has executed its `sendInLoop`
def untilExecuted : List (StorageLabel Unit) :=
  [.step (.send (.other ()) 100 2), .step (.sendRun (.other ()) (.accepted 0)), .step .swap,
    .step (.runFunctor (.accepted 2))]

def executed : Threads Unit :=
  ((storageSystem Unit).run established untilExecuted).get (by decide +kernel)

/--
The caller then destroys the string, which is too late to matter.
-/
theorem sent_as_passed_executed
    : ∃ s, (storageSystem Unit).step executed (.free (.other ()) 100 2) = some s
        ∧ s.processed = [(0, [100, 101])]
        ∧ s.faulted = false ∧ ∀ call bytes, (call, bytes) ∈ s.processed → s.contents call = some bytes := by
  have hexecuted : (storageSystem Unit).ReachableBy keepsSent executed := by
    apply LTS.ReachableBy.run untilExecuted (.init established_init)
    . simp [untilExecuted, keepsSent]
    . exact (Option.some_get _).symm
  have hqueue : executed.queue = [] := by decide +kernel
  have hcallers : ∀ t, executed.callers t = .idle := by
    intro t
    cases t with
    | loop => decide +kernel
    | other t =>
      cases t
      decide +kernel
  have hok : executed.keepsSent (.free (.other ()) 100 2) := by
    rintro a _ _ ⟨call, message, len, hin, _⟩
    simp [InFlight, hcallers, hqueue] at hin
  refine ⟨_, rfl, by decide +kernel, ?_⟩
  apply sent_as_passed
  exact .step hexecuted hok rfl

-- the caller overwrites the string after `send` has returned and before the loop thread gets to it
def overwrite : List (StorageLabel Unit) :=
  [.step (.send (.other ()) 100 2), .step (.sendRun (.other ()) (.accepted 0)),
    .store (.other ()) 100 88, .step .swap, .step (.runFunctor (.accepted 2))]

def overwritten : Threads Unit :=
  ((storageSystem Unit).run established overwrite).get (by decide +kernel)

theorem sent_overwritten
    : (storageSystem Unit).Reachable overwritten ∧ overwritten.contents 0 = some [100, 101]
        ∧ overwritten.processed = [(0, [88, 101])]
        ∧ ¬∀ call bytes, (call, bytes) ∈ overwritten.processed →
          overwritten.contents call = some bytes := by
  have hcontents : overwritten.contents 0 = some [100, 101] := by decide +kernel
  have hprocessed : overwritten.processed = [(0, [88, 101])] := by decide +kernel
  refine ⟨.run (.init established_init) (Option.some_get _).symm, hcontents, hprocessed, ?_⟩
  intro hall
  have := hall 0 [88, 101] (by simp [hprocessed])
  simp [hcontents] at this

-- the caller destroys the string instead, and its storage is given to another one
def reuse : List (StorageLabel Unit) :=
  [.step (.send (.other ()) 100 2), .step (.sendRun (.other ()) (.accepted 0)),
    .free (.other ()) 100 2, .alloc .loop 100 [88, 89]]

/--
`sendInLoop` transmits the other string, and without one it reads storage that is not alive.
-/
theorem sent_destroyed
    : ((storageSystem Unit).run established
            (reuse ++ [.step .swap, .step (.runFunctor (.accepted 2))])).map Threads.processed
          = some [(0, [88, 89])]
        ∧ ((storageSystem Unit).run established
            (reuse.take 3 ++ [.step .swap, .step (.runFunctor (.accepted 2))])).map Threads.faulted
          = some true := by
  constructor
  . decide +kernel
  . decide +kernel

end Threads

end TcpConnection

end MyMuduo
