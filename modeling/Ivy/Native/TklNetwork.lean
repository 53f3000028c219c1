import Ivy.ForStd.Memory
import Mathlib.Algebra.Group.Nat.Defs

/-!
# Sockets of the SDK

The receive loop and the blocking mode of `tkl_network.c`, over the calls of lwIP that they make.
The outcome of each `recv` is given from outside, and so are the values that `errno` takes; no
result depends on the numbers behind the names, except that `EWOULDBLOCK` is `EAGAIN`.
-/

namespace Ivy.Native

/-- The values of `errno` with an entry in `unw_errno_trans`, and the others. -/
inductive Errno
  | eintr
  | ebadf
  | eagain
  | efault
  | ebusy
  | einval
  | enfile
  | emfile
  | enospc
  | epipe
  | enotsock
  | enoprotoopt
  | eaddrinuse
  | eaddrnotavail
  | enetdown
  | enetunreach
  | enetreset
  | econnreset
  | enobufs
  | eisconn
  | enotconn
  | etimedout
  | econnrefused
  | ehostdown
  | ehostunreach
  | enomem
  | emsgsize
  | other (n : Nat)
  deriving DecidableEq, Repr

/-- `EWOULDBLOCK`, as `lwip/errno.h` defines it. -/
def Errno.ewouldblock : Errno := .eagain

def unwSuccess : Int := 0
def unwFail : Int := -1
def unwEintr : Int := -2
def unwEagain : Int := -4
def unwEwouldblock : Int := -12

def unwErrnoTrans : List (Errno × Int) :=
  [(.eintr, unwEintr), (.ebadf, -3), (.eagain, unwEagain), (.efault, -5), (.ebusy, -6),
    (.einval, -7), (.enfile, -8), (.emfile, -9), (.enospc, -10), (.epipe, -11),
    (.ewouldblock, unwEwouldblock), (.enotsock, -13), (.enoprotoopt, -14), (.eaddrinuse, -15),
    (.eaddrnotavail, -16), (.enetdown, -17), (.enetunreach, -18), (.enetreset, -19),
    (.econnreset, -20), (.enobufs, -21), (.eisconn, -22), (.enotconn, -23), (.etimedout, -24),
    (.econnrefused, -25), (.ehostdown, -26), (.ehostunreach, -27), (.enomem, -28),
    (.emsgsize, -29)]

/-- The loop of `tkl_net_get_errno` over the table. -/
def transLoop (sysErr : Errno) : List (Errno × Int) → Option Int
  | [] => none
  | (err, priv) :: rest => if err = sysErr then some priv else transLoop sysErr rest

/-- `tkl_net_get_errno`; a value without an entry is translated by its number. -/
def tklNetGetErrno (sysErr : Errno) : Int :=
  match transLoop sysErr unwErrnoTrans, sysErr with
  | some priv, _ => priv
  | none, .other n => -100 - n
  -- the table has an entry for every name
  | none, _ => -100

/-! ## Receiving -/

/-- What a call of `recv` does: it delivers bytes, at least one and at most those asked for, or
    fails with `errno` set, or finds the connection closed. -/
inductive RecvOutcome
  /-- `min (k + 1) n` of the `n` bytes asked for -/
  | data (k : Nat)
  | error (err : Errno)
  | close
  deriving DecidableEq, Repr

/-- The memory of the caller, how many bytes of the stream it has been given, and `errno`. -/
structure RecvState where
  mem : Nat → UInt8
  consumed : Nat
  errno : Errno

/-- `recv(fd, p, n, 0)` on a connection with the bytes `stream`. -/
def recv (stream : Nat → UInt8) (s : RecvState) (p n : Nat) : RecvOutcome → Int × RecvState
  | .data k =>
    let len := min (k + 1) n
    (len, { s with
      mem := Mem.store s.mem p (Mem.load stream s.consumed len)
      consumed := s.consumed + len })
  | .error err => (-1, { s with errno := err })
  | .close => (0, { s with errno := .enotconn })

/-- Whether `tkl_net_recv_nd_size` tries again after this translated error. -/
def recvRetries (err : Int) : Bool :=
  unwEwouldblock == err || unwEintr == err || unwEagain == err

/-- The loop of `tkl_net_recv_nd_size`; the outcomes are those of its calls of `recv`, one after the
    other. `none` if it is still running when they are used up. -/
def recvLoop (stream : Nat → UInt8) (buf : Nat) (ndSize : UInt32) :
    List RecvOutcome → UInt32 → RecvState → Option (UInt32 × RecvState)
  | [], rdSize, s => if rdSize < ndSize then none else some (rdSize, s)
  | o :: os, rdSize, s =>
    if rdSize < ndSize then
      let (ret, s) := recv stream s (buf + rdSize.toNat) (ndSize - rdSize).toNat o
      if ret ≤ 0 then
        -- a `recv` that returns 0 is judged by `errno` as well
        if recvRetries (tklNetGetErrno s.errno) then recvLoop stream buf ndSize os rdSize s
        else some (rdSize, s)
      else recvLoop stream buf ndSize os (rdSize + UInt32.ofNat ret.toNat) s
    else some (rdSize, s)

/-- `tkl_net_recv_nd_size`; a null `buf` is `none`. -/
def tklNetRecvNdSize (stream : Nat → UInt8) (fd : Int) (buf : Option Nat)
    (bufSize ndSize : UInt32) (os : List RecvOutcome) (s : RecvState) :
    Option (Int × RecvState) :=
  match buf with
  | none => some (-3000 + fd, s)
  | some buf =>
    -- the arguments are checked, with the result of a bad socket
    if fd < 0 ∨ bufSize = 0 ∨ ndSize = 0 ∨ bufSize < ndSize then some (-3000 + fd, s)
    else
      (recvLoop stream buf ndSize os 0 s).map fun (rdSize, s) =>
        -- fewer bytes than asked for are an error, though they stand in the buffer
        (if rdSize < ndSize then -2 else rdSize.toInt32.toInt, s)

/-! ## Blocking mode -/

/-- `O_NONBLOCK`, given by its bit: its value depends on the toolchain. -/
def oNonblock (bit : Fin 32) : UInt32 := UInt32.ofNat (2 ^ bit.val)

/-- The flag words of the sockets, and `errno`. -/
structure SocketState where
  flags : Int → UInt32
  errno : Errno

/-- `fcntl(fd, F_GETFL, 0)` on a socket that is open. It leaves `errno` alone. -/
def fcntlGetfl (s : SocketState) (fd : Int) : UInt32 := s.flags fd

/-- `fcntl(fd, F_SETFL, flags)`; `refused` is the error if the call is refused. -/
def fcntlSetfl (s : SocketState) (fd : Int) (flags : UInt32) (refused : Option Errno) :
    Int × SocketState :=
  match refused with
  | some err => (-1, { s with errno := err })
  | none => (0, { s with flags := fun fd' => if fd' = fd then flags else s.flags fd' })

/-- `tkl_net_get_nonblock` -/
def tklNetGetNonblock (bit : Fin 32) (s : SocketState) (fd : Int) : Int :=
  if fd < 0 then -3000 + fd
  else if fcntlGetfl s fd &&& oNonblock bit ≠ oNonblock bit then 0
  -- the flag is set, but the answer still depends on `errno`
  else if s.errno = .eagain ∨ s.errno = .ewouldblock then 1
  else 0

/-- `tkl_net_set_block` -/
def tklNetSetBlock (bit : Fin 32) (s : SocketState) (fd : Int) (block : Bool)
    (refused : Option Errno) : Int × SocketState :=
  if fd < 0 then (-3000 + fd, s)
  else
    let flags := fcntlGetfl s fd
    let flags := if block then flags &&& ~~~ oNonblock bit else flags ||| oNonblock bit
    let (ret, s) := fcntlSetfl s fd flags refused
    if ret < 0 then (unwFail, s) else (unwSuccess, s)

end Ivy.Native
