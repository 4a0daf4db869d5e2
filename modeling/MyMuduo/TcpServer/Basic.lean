import Mathlib.Algebra.Ring.Nat

/-!
This module contains the server object: the names that it gives to connections, its map of connections, and
the loops of its thread pool.
-/

namespace MyMuduo

def INT_MAX : Nat := 0x7fffffff

-- what `snprintf` leaves in a buffer of `size` bytes
def snprintf (size : Nat) (output : List Char) : List Char :=
  output.take (size - 1)

-- `%d` and `%u` of a number that is not negative
def formatted (n : Nat) : List Char :=
  Nat.toDigits 10 n

/--
The four bytes of `sin_addr` and the port, in the order of the host.
-/
structure InetAddress where
  ip : UInt8 × UInt8 × UInt8 × UInt8
  port : UInt16

def InetAddress.toIpPort (a : InetAddress) : List Char :=
  formatted a.ip.1.toNat ++ '.' :: formatted a.ip.2.1.toNat ++ '.' :: formatted a.ip.2.2.1.toNat
    ++ '.' :: formatted a.ip.2.2.2.toNat ++ ':' :: formatted a.port.toNat

/--
The loops are numbered: 0 is `baseLoop_`, and `loops_[i]` is `i + 1`. `loops_` is how many there are.
-/
structure EventLoopThreadPool where
  loops_ : Nat
  next_ : Nat

def EventLoopThreadPool.getNextLoop (p : EventLoopThreadPool) : Nat × EventLoopThreadPool :=
  if p.loops_ ≠ 0 then
    let next := p.next_ + 1
    (p.next_ + 1, { p with next_ := if p.loops_ ≤ next then 0 else next })
  else
    (0, p)

/--
`connections_` holds the number of a connection, which is the `nextConnId_` that it was made with, in place of
the pointer.
-/
structure TcpServer where
  ipPort_ : List Char
  name_ : List Char
  threadPool_ : EventLoopThreadPool
  writeCompleteCallback_ : Bool
  nextConnId_ : Nat
  connections_ : List (List Char × Nat)

namespace TcpServer

-- `loops` is what `setThreadNum` is told
def new (listenAddr : InetAddress) (nameArg : List Char) (loops : Nat) (writeCompleteCallback : Bool)
    : TcpServer where
  ipPort_ := listenAddr.toIpPort
  name_ := nameArg
  threadPool_ := ⟨loops, 0⟩
  writeCompleteCallback_ := writeCompleteCallback
  nextConnId_ := 1
  connections_ := []

-- `connName` for the connection with the number `connId`
def connName (s : TcpServer) (connId : Nat) : List Char :=
  s.name_ ++ snprintf 64 ('-' :: s.ipPort_ ++ '#' :: formatted connId)

-- `connections_[connName] = conn`
def insert (s : TcpServer) (connName : List Char) (conn : Nat) : TcpServer :=
  { s with connections_ := (connName, conn) :: s.connections_.filter (·.1 ≠ connName) }

def erase (s : TcpServer) (connName : List Char) : TcpServer :=
  { s with connections_ := s.connections_.filter (·.1 ≠ connName) }

theorem formatted_injective {m n : Nat} (h : formatted m = formatted n) : m = n := by
  unfold formatted at h
  rw [← Nat.ofDigitChars_ten_toDigits (n := m), h, Nat.ofDigitChars_ten_toDigits]

theorem length_formatted_le {n k : Nat} (hk : 0 < k) (h : n < 10 ^ k) : (formatted n).length ≤ k :=
  (Nat.length_toDigits_le_iff (by decide) hk).mpr h

theorem length_toIpPort_le (a : InetAddress) : a.toIpPort.length ≤ 21 := by
  have hbyte : ∀ byte : UInt8, (formatted byte.toNat).length ≤ 3 := by
    intro byte
    apply length_formatted_le (by decide)
    have := byte.toNat_lt
    omega
  have hport : (formatted a.port.toNat).length ≤ 5 := by
    apply length_formatted_le (by decide)
    have := a.port.toNat_lt
    omega
  have h₁ := hbyte a.ip.1
  have h₂ := hbyte a.ip.2.1
  have h₃ := hbyte a.ip.2.2.1
  have h₄ := hbyte a.ip.2.2.2
  simp only [InetAddress.toIpPort, List.length_append, List.length_cons]
  omega

/--
The buffer is large enough for every name, so that the names of two connections differ.
-/
theorem connName_injective {s : TcpServer} (haddr : s.ipPort_.length ≤ 21) {i j : Nat} (hi : i ≤ INT_MAX)
    (hj : j ≤ INT_MAX) (h : s.connName i = s.connName j) : i = j := by
  have hfits : ∀ k, k ≤ INT_MAX → ('-' :: s.ipPort_ ++ '#' :: formatted k).length ≤ 63 := by
    intro k hk
    have hlen : (formatted k).length ≤ 10 := by
      apply length_formatted_le (by decide)
      unfold INT_MAX at hk
      omega
    simp only [List.length_append, List.length_cons]
    omega
  simp only [connName, snprintf] at h
  rw [List.take_of_length_le (hfits i hi), List.take_of_length_le (hfits j hj), List.append_cancel_left_eq,
    List.append_cancel_left_eq, List.cons.injEq] at h
  exact formatted_injective h.2

end TcpServer

end MyMuduo
