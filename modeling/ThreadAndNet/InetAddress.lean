import ThreadAndNet.Syscall

/-!
# The names of the two ends of a socket
-/

namespace ZDQ

/-- An IPv4 address and port, as the kernel stores them. -/
structure InetAddress where
  s_addr : BitVec 32
  sin_port : BitVec 16
deriving DecidableEq

/-- What `::getsockname` and `::getpeername` answer for one descriptor. -/
structure SockNames where
  sockname : Except Errno InetAddress
  peername : Except Errno InetAddress

namespace InetAddress

def getLocalInetAddress (names : SockNames) : Except Failure InetAddress :=
  match names.sockname with
  | .ok addr => .ok addr
  | .error _ => .error (.exit "getsockname")

def getPeerInetAddress (names : SockNames) : Except Failure InetAddress :=
  match names.peername with
  | .ok addr => .ok addr
  | .error _ => .error (.exit "getpeername")

/-- The dotted forms of two addresses are equal exactly if the addresses are. -/
def isSelfConnect (names : SockNames) : Except Failure Bool :=
  match getLocalInetAddress names with
  | .error e => .error e
  | .ok localAddr =>
    match getPeerInetAddress names with
    | .error e => .error e
    | .ok peerAddr =>
      .ok (localAddr.s_addr == peerAddr.s_addr && localAddr.sin_port == peerAddr.sin_port)

theorem isSelfConnect_of_peer {names : SockNames} {localAddr peerAddr : InetAddress}
    (hlocal : names.sockname = .ok localAddr) (hpeer : names.peername = .ok peerAddr) :
    isSelfConnect names = .ok (decide (localAddr = peerAddr)) := by
  obtain ⟨a, p⟩ := localAddr
  obtain ⟨b, q⟩ := peerAddr
  simp only [isSelfConnect, getLocalInetAddress, getPeerInetAddress, hlocal, hpeer, mk.injEq,
    Bool.decide_and, Except.ok.injEq]
  rfl

theorem isSelfConnect_of_noPeer {names : SockNames} {localAddr : InetAddress} {e : Errno}
    (hlocal : names.sockname = .ok localAddr) (hpeer : names.peername = .error e) :
    isSelfConnect names = .error (.exit "getpeername") := by
  simp only [isSelfConnect, getLocalInetAddress, getPeerInetAddress, hlocal, hpeer]

theorem isSelfConnect_false {names : SockNames} (h : isSelfConnect names = .ok false) :
    ∃ localAddr peerAddr, names.sockname = .ok localAddr ∧
      names.peername = .ok peerAddr ∧ localAddr ≠ peerAddr := by
  cases hlocal : names.sockname with
  | error e => simp [isSelfConnect, getLocalInetAddress, hlocal] at h
  | ok localAddr =>
    cases hpeer : names.peername with
    | error e => simp [isSelfConnect_of_noPeer hlocal hpeer] at h
    | ok peerAddr =>
      rw [isSelfConnect_of_peer hlocal hpeer] at h
      exact ⟨localAddr, peerAddr, rfl, rfl, by simpa using h⟩

end InetAddress

end ZDQ
