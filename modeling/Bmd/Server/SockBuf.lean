import Bmd.Daemon.Events

/-!
# `Server.SockBuf` — the buffers of client connections (`server.c`)

A request and a response are a 4-byte big-endian length followed by that many bytes. `recv_sock_buf` and
`send_sock_buf` do one `recv(2)` or `sendmsg(2)` each and keep their progress in the `sock_buf`.
-/

namespace Bmd

/-- `UID_NOBODY`. -/
def uidNobody : Int := 65534

/-- `COMMAND_TIMEOUT_SEC`. -/
def commandTimeoutSec : Int := 30

/-! ## Life of a buffer -/

/-- The buffer `create_sock_buf` fills in. -/
def mkSockBuf (a : Addr) (fd : Fd) (now : Int) (peer : Option Xucred) : SockBuf :=
  { addr := a, fd := fd, readState := 0, bufSize := 0, size := [], readSize := 0, readBytes := 0, buf := [],
    sentSize := 0, resFd := -1, resSize := 0, resBytes := 0, resBuf := [], eventTime := now,
    peer := peer.getD { uid := uidNobody, groups := [] } }

/-- `create_sock_buf`; `peer` is `none` when `getsockopt` failed. -/
def createSockBuf (env : Env) (fd : Fd) (now : Int) (peer : Option Xucred) : Prog (Option Addr) := do
  if !(← ask env.malloc) then
    return none
  let a ← alloc
  modify fun s => { s with sockList := mkSockBuf a fd now peer :: s.sockList }
  return some a

/-- `destroy_sock_buf`. -/
def destroySockBuf (sb : SockBuf) : Prog Unit := do
  modify fun s => { s with sockList := s.sockList.filter (·.addr != sb.addr) }
  closeFd sb.fd
  vmClose sb.resFd

/-- `calc_timeout`: `none` is an infinite wait. -/
def calcTimeout (s : Daemon) (timeout now : Int) : Option Int :=
  match s.sockList with
  | [] => none
  | p :: rest =>
    let oldest := rest.foldl (fun m q => if q.eventTime < m then q.eventTime else m) p.eventTime
    let t := oldest + timeout - now
    if t < 0 then none else some t

/-- The idle timeout of a connection has passed. -/
def SockBuf.timedOut (sb : SockBuf) (timeout now : Int) : Bool := sb.eventTime + timeout ≤ now

/-- The loop of `close_timeout_sock_buf`. -/
def closeTimedOut (timeout now : Int) : List SockBuf → Prog Unit
  | [] => return ()
  | sb :: rest => do
    whenever (sb.timedOut timeout now) (destroySockBuf sb)
    closeTimedOut timeout now rest

/-- `close_timeout_sock_buf`. The events of a closed connection stay in `event_list`. -/
def closeTimeoutSockBuf (timeout now : Int) : Prog Unit := do
  closeTimedOut timeout now (← get).sockList

/-- `clear_sock_buf`. -/
def SockBuf.clear (sb : SockBuf) : SockBuf :=
  { sb with buf := [], readState := 0, bufSize := 0, readSize := 0, readBytes := 0 }

/-- `clear_send_sock_buf`. -/
def SockBuf.clearSend (sb : SockBuf) : SockBuf :=
  { sb with sentSize := 0, resFd := -1, resBuf := [], resSize := 0, resBytes := 0 }

/-- Write fields of a `sock_buf`. -/
def modSock (a : Addr) (f : SockBuf → SockBuf) : Prog Unit := modify (·.modSock a f)

/-! ## Sending -/

/-- `htonl`, as the four bytes in memory. -/
def htonl (n : Nat) : List UInt8 :=
  [.ofNat (n / 2 ^ 24), .ofNat (n / 2 ^ 16), .ofNat (n / 2 ^ 8), .ofNat n]

/-- The bytes that `send_sock_buf` offers to `sendmsg`. -/
def SockBuf.offered (sb : SockBuf) : List UInt8 :=
  if sb.sentSize < 4 then (htonl sb.resSize).drop sb.sentSize ++ sb.resBuf.take sb.resSize
  else (sb.resBuf.take sb.resSize).drop (sb.sentSize - 4)

/-- What `sendmsg(2)` answers: it accepted some of the bytes, would block, or failed. -/
inductive SendResult where
  | again
  | error
  | sent (n : Nat)
  deriving DecidableEq, Repr

/-- The descriptor in `res_fd` is closed after the first `sendmsg`. -/
def dropResFd (sb : SockBuf) : Prog Unit := do
  vmClose sb.resFd
  modSock sb.addr ({ · with resFd := -1 })

/-- The response of `send_sock_buf` to a `sendmsg`: the state of the transfer and the return value. -/
def SockBuf.sendDone (sb : SockBuf) (now : Int) : SendResult → SockBuf × Int
  | .again => (sb, 1)
  | .error => (sb, -1)
  | .sent n =>
    let n := min n sb.offered.length
    if n = 0 then (sb, 0)
    else
      let sent := sb.sentSize + n
      ({ sb with eventTime := now, sentSize := sent }, if sent = sb.resBytes + 4 then 2 else 1)

/-- `send_sock_buf`. -/
def sendSockBuf (env : Env) (sb : SockBuf) (r : SendResult) (now : Int) : Prog Int := do
  if sb.resSize = 0 ∨ sb.sentSize = sb.resSize + 4 then
    return 2
  let ok ← ask env.malloc
  if sb.resFd ≠ -1 ∧ !ok then
    return -1
  modSock sb.addr fun b => (b.sendDone now r).1
  dropResFd sb
  return (sb.sendDone now r).2

/-! ## Receiving -/

/-- What `recv(2)` answers. -/
inductive RecvResult where
  | again
  | error
  | data (bytes : List UInt8)
  deriving DecidableEq, Repr

/-- `ntohl` of the four bytes. -/
def ntohl (bytes : List UInt8) : Nat := bytes.foldl (fun n b => n * 256 + b.toNat) 0

/-- The limit on the size of a request. -/
def maxRequest : Nat := 1024 * 1024

/-- `recv_sock_buf` while it reads the length. -/
def SockBuf.recvSize (sb : SockBuf) (alloc : Bool) (bytes : List UInt8) : SockBuf × Int :=
  let nread := sb.readSize + bytes.length
  let size := sb.size.take sb.readSize ++ bytes
  let sb := { sb with size := size, readSize := nread }
  if nread = 4 then
    let sb := { sb with readState := 1, bufSize := ntohl size }
    if maxRequest < sb.bufSize then (sb, -1)
    else if !alloc then (sb, -1)
    else (sb, 1)
  else (sb, 1)

/-- `recv_sock_buf` while it reads the request. -/
def SockBuf.recvBody (sb : SockBuf) (bytes : List UInt8) : SockBuf × Int :=
  let nread := sb.readBytes + bytes.length
  let sb := { sb with buf := sb.buf.take sb.readBytes ++ bytes, readBytes := nread }
  (sb, if nread = sb.bufSize then 2 else 1)

/-- The number of bytes that `recv_sock_buf` still waits for. -/
def SockBuf.missing (sb : SockBuf) : Nat :=
  if sb.readState = 0 then 4 - sb.readSize else sb.bufSize - sb.readBytes

/-- `recv_sock_buf` on the answer of `recv`, which fills at most the space it is given; `alloc` is the answer
    of `malloc`. When nothing is missing, one byte is read only to see whether the peer has closed. -/
def SockBuf.received (sb : SockBuf) (alloc : Bool) (now : Int) : RecvResult → SockBuf × Int
  | .again => (sb, 1)
  | .error => (sb, -1)
  | .data [] => (sb, 0)
  | .data bytes =>
    if sb.missing = 0 then (sb, -1)
    else
      let sb' := { sb with eventTime := now }
      if sb.readState = 0 then sb'.recvSize alloc (bytes.take sb.missing)
      else sb'.recvBody (bytes.take sb.missing)

/-- `recv_sock_buf`. -/
def recvSockBuf (env : Env) (sb : SockBuf) (r : RecvResult) (now : Int) : Prog Int := do
  let ok ← ask env.malloc
  modSock sb.addr fun b => (b.received ok now r).1
  return (sb.received ok now r).2

end Bmd
