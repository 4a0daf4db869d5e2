import MyMuduo.Poller.Basic

/-!
This module contains the connector of a client: `start`, `stop` and `restart` on the loop thread, the
non-blocking `connect`, the handlers of its channel, and the retry with its delay.
-/

namespace MyMuduo

inductive States where
  | kDisconnected
  | kConnecting
  | kConnected
  deriving DecidableEq, Repr

/--
Sockets and channel objects are numbered in the order in which they are made, and the number of a socket
stands for its descriptor. `poller` is the loop's poller as far as it concerns the connector, `resets`
counts the queued functors `resetChannel`, and `timers` holds the delays in milliseconds with which
`runAfter` has recorded `startInLoop`. The last two fields are history: the descriptors given to
`::close` and to `newConnectionCallback_`.
-/
structure Connector where
  connect_ : Bool
  state_ : States
  channel_ : Option Channel
  retryDelayMs : Nat
  poller : EPollPoller
  resets : Nat
  timers : List Nat
  sockets : Nat
  closed : List Fd
  handed : List Fd

namespace Connector

def kMaxRetryDelayMs : Nat := 30 * 1000

def kInitRetryDelayMs : Nat := 500

-- the numbers of Linux
def EINTR : Nat := 4
def EAGAIN : Nat := 11
def EADDRINUSE : Nat := 98
def EADDRNOTAVAIL : Nat := 99
def ENETUNREACH : Nat := 101
def EISCONN : Nat := 106
def ECONNREFUSED : Nat := 111
def EINPROGRESS : Nat := 115

-- the three kinds of cases of the `switch` in `connect`
inductive Outcome where
  | connecting
  | retry
  | close
  deriving DecidableEq, Repr

def outcome (savedErrno : Nat) : Outcome :=
  if savedErrno = 0 ∨ savedErrno = EINPROGRESS ∨ savedErrno = EINTR ∨ savedErrno = EISCONN then
    .connecting
  else if savedErrno = EAGAIN ∨ savedErrno = EADDRINUSE ∨ savedErrno = EADDRNOTAVAIL
      ∨ savedErrno = ECONNREFUSED ∨ savedErrno = ENETUNREACH then
    .retry
  else
    .close

-- `exit(-1)` behind the message
def LOG_FATAL : Option Unit := none

def new : Connector where
  connect_ := false
  state_ := .kDisconnected
  channel_ := none
  retryDelayMs := kInitRetryDelayMs
  poller := .empty
  resets := 0
  timers := []
  sockets := 0
  closed := []
  handed := []

def setState (s : Connector) (state : States) : Connector :=
  { s with state_ := state }

def close (s : Connector) (sockfd : Fd) : Connector :=
  { s with closed := s.closed ++ [sockfd] }

def retry (s : Connector) (sockfd : Fd) : Connector :=
  let s := (s.close sockfd).setState .kDisconnected
  if s.connect_ then
    { s with
        timers := s.timers ++ [s.retryDelayMs]
        retryDelayMs := min (s.retryDelayMs * 2) kMaxRetryDelayMs }
  else
    s

-- the old channel object, if there is one, is deleted
def connecting (s : Connector) (sockfd : Fd) : Option Connector :=
  let s := s.setState .kConnecting
  let channel := Channel.new sockfd sockfd [.write, .error]
  (channel.enableWriting s.poller).map fun (poller, channel) =>
    { s with channel_ := some channel, poller := poller }

/--
`savedErrno` is what `::connect` reports, 0 for success.
-/
def connect (s : Connector) (savedErrno : Nat) : Option Connector :=
  let sockfd := s.sockets
  let s := { s with sockets := s.sockets + 1 }
  match outcome savedErrno with
  | .connecting => s.connecting sockfd
  | .retry => some (s.retry sockfd)
  | .close => some (s.close sockfd)

def startInLoop (s : Connector) (savedErrno : Nat) : Option Connector :=
  if s.connect_ then
    s.connect savedErrno
  else
    some s

def start (s : Connector) (savedErrno : Nat) : Option Connector :=
  { s with connect_ := true }.startInLoop savedErrno

def restart (s : Connector) (savedErrno : Nat) : Option Connector :=
  { s.setState .kDisconnected with connect_ := true }.startInLoop savedErrno

-- `none`: `channel_` is null, or the poller has ended the process
def removeAndResetChannel (s : Connector) : Option (Connector × Fd) :=
  s.channel_.bind fun channel =>
    (channel.disableAll s.poller).bind fun (poller, channel) =>
      (channel.remove poller).map fun (poller, channel) =>
        ({ s with channel_ := some channel, poller := poller, resets := s.resets + 1 }, channel.fd)

def resetChannel (s : Connector) : Connector :=
  { s with channel_ := none }

def stopInLoop (s : Connector) : Option Connector :=
  if s.state_ = .kConnecting then
    (s.setState .kDisconnected).removeAndResetChannel.map fun (s, sockfd) => s.retry sockfd
  else
    some s

def stop (s : Connector) : Option Connector :=
  { s with connect_ := false }.stopInLoop

/--
`err` is the pending error of the socket, or the `errno` of a `getsockopt` that fails.
-/
def handleWrite (s : Connector) (err : Nat) (isSelfConnect : Bool) : Option Connector :=
  if s.state_ = .kConnecting then
    s.removeAndResetChannel.map fun (s, sockfd) =>
      if err ≠ 0 then
        s.retry sockfd
      else if isSelfConnect then
        s.retry sockfd
      else
        let s := s.setState .kConnected
        if s.connect_ then
          { s with handed := s.handed ++ [sockfd] }
        else
          s.close sockfd
  else
    some s

def handleError (s : Connector) : Option Connector :=
  if s.state_ = .kConnecting then
    s.removeAndResetChannel.bind fun (s, sockfd) =>
      -- the process ends here
      LOG_FATAL.map fun _ => s.retry sockfd
  else
    some s

def runCallback (s : Connector) (err : Nat) (isSelfConnect : Bool) : Callback → Option Connector
  | .write => s.handleWrite err isSelfConnect
  | .error => s.handleError
  | .read | .close => some s

/--
`Channel::handleEvent` on the connector's channel, with the mask that the poller reports.
-/
def handleEvent (s : Connector) (channel : Channel) (revents : Events) (err : Nat)
    (isSelfConnect : Bool) : Option Connector :=
  { channel with revents := revents }.handleEventWithGuard.foldlM
    (fun s callback => s.runCallback err isSelfConnect callback) s

end Connector

end MyMuduo
