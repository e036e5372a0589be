import ThreadAndNet.ServerLife

/-!
# Who holds a connection of a server

The strong references to a connection: shared pointers in `conns_`, in queued
functors, in user code, and in the close callbacks stored in connections. The
last one that goes destroys the connection and with it the socket. A functor
that has run no longer counts, although its batch keeps it until the batch ends.
-/

namespace ZDQ

open Machine

/-- The functor was bound to a `TcpConnectionPtr` of `c`; `sendInLoop` and
`shutdownInLoop` are bound to the bare pointer. -/
def ServerFunctor.Binds (c : Nat) : ServerFunctor → Prop
  | .conn d .connectEstablished => d = c
  | .conn d .connectDestroyed => d = c
  | .conn d .forceCloseInLoop => d = c
  | .conn d .writeCompleteCallback => d = c
  | .conn _ (.sendInLoop _) => False
  | .conn _ .shutdownInLoop => False
  | .removeConnectionInLoop d => d = c

namespace TcpServer

inductive Holder where
  /-- the entry of `conns_` under a name -/
  | entry (name : String)
  /-- a functor queued on loop `l` -/
  | functor (l : Nat) (cb : ServerFunctor)
  | userCode
  /-- `closeCallback_` of connection `d` -/
  | closeCallback (d : Nat)
deriving DecidableEq

def Holds (s : TcpServer) (c : Nat) : Holder → Prop
  | .entry name => s.conns name = some c
  | .functor l cb => cb ∈ (s.loops l).queued ∧ cb.Binds c
  | .userCode => ∃ e, s.served c = some e ∧ 0 < e.userRefs
  | .closeCallback d => ∃ e, s.served d = some e ∧ c ∈ e.closeCallback

/-- `~Socket` has closed the descriptor: no holder of the connection is left. -/
def ConnfdClosed (s : TcpServer) (c : Nat) : Prop := ∀ h, ¬ s.Holds c h

/-- Nobody outside the connection has any use for it. -/
structure Abandoned (s : TcpServer) (c : Nat) (e : Served) : Prop where
  erased : ∀ name, s.conns name ≠ some c
  destroyed : .connectDestroyed e.loop ∈ e.track.history
  unqueued : ∀ l cb, cb ∈ (s.loops l).queued → ¬ cb.Binds c
  unused : e.userRefs = 0

theorem Alive.holds_self {s : TcpServer} (alive : Alive s) {c : Nat} {e : Served}
    (he : s.served c = some e) : s.Holds c (.closeCallback c) :=
  ⟨e, he, by rw [alive.bound c e he]; exact List.mem_singleton_self c⟩

theorem Alive.holds_of_closeCallback {s : TcpServer} (alive : Alive s) {c d : Nat}
    (h : s.Holds c (.closeCallback d)) : d = c := by
  obtain ⟨e, he, mem⟩ := h
  rw [alive.bound d e he] at mem
  exact (List.mem_singleton.mp mem).symm

/-- `newConnection` binds the connection into its own `closeCallback_`, and that
holder is left when all others are gone; the descriptor is never closed. -/
theorem abandoned_holds_itself {name : String} {numThreads : Nat} {wc : Bool}
    {s : TcpServer} (reached : Reaches step (new name numThreads wc) s) {c : Nat}
    {e : Served} (he : s.served c = some e) (abandoned : Abandoned s c e) :
    (∀ h, s.Holds c h ↔ h = .closeCallback c) ∧ ¬ ConnfdClosed s c := by
  have alive := reached_alive reached
  have self := alive.holds_self he
  refine ⟨?_, fun closed => closed _ self⟩
  intro h
  constructor
  · intro holds
    cases h with
    | entry name => exact absurd holds (abandoned.erased name)
    | functor l cb => exact absurd holds.2 (abandoned.unqueued l cb holds.1)
    | userCode =>
      obtain ⟨e', he', used⟩ := holds
      rw [he] at he'
      cases he'
      rw [abandoned.unused] at used
      exact absurd used (Nat.lt_irrefl 0)
    | closeCallback d => rw [alive.holds_of_closeCallback holds]
  · rintro rfl
    exact self

section Schedules

/-- What is left of `conns_` once its only entry is erased. -/
theorem erased_entry (connName name : String) (c : Nat) :
    Function.update (Function.update (fun _ => none) connName (some c)) connName none name ≠
      some c := by
  rw [Function.update_idem]
  by_cases h : name = connName
  · rw [h, Function.update_self]
    exact nofun
  · rw [Function.update_of_ne h]
    exact nofun

set_option maxRecDepth 20000 in
theorem tornDown_abandoned :
    ∃ s e, run step (new "echo" 1 false) tornDown = .ok s ∧ s.served 1 = some e ∧
      e.closeCallback = [1] ∧ Abandoned s 1 e := by
  obtain ⟨s, e, hrun, he, own, bound, unused, trace, queues, conns⟩ : ∃ s e,
      run step (new "echo" 1 false) tornDown = .ok s ∧ s.served 1 = some e ∧ e.loop = 1 ∧
      e.closeCallback = [1] ∧ e.userRefs = 0 ∧
      e.track.history = [.connectEstablished .kConnecting, .connCallback true, .event,
        .closeCallback, .removed 0, .connectDestroyed 1] ∧
      (∀ l, (s.loops l).queued = []) ∧
      s.conns = Function.update (Function.update (fun _ => none) ("echo" ++ buf32 "#1")
        (some 1)) ("echo" ++ buf32 "#1") none := by
    refine ⟨_, _, rfl, rfl, rfl, rfl, rfl, rfl, ?_, rfl⟩
    rintro (_ | _ | l) <;> rfl
  refine ⟨s, e, hrun, he, bound, ?_, ?_, ?_, unused⟩
  · intro name
    rw [conns]
    exact erased_entry _ name 1
  · rw [trace, own]
    simp
  · intro l cb mem
    rw [queues l] at mem
    cases mem

/-- The peer closed and all that follows from it is done, yet the connection's own
callback holds it. -/
theorem connfd_open_tornDown :
    ∃ s e, run step (new "echo" 1 false) tornDown = .ok s ∧ s.served 1 = some e ∧
      Abandoned s 1 e ∧ s.Holds 1 (.closeCallback 1) ∧ ¬ ConnfdClosed s 1 := by
  obtain ⟨s, e, hrun, he, bound, abandoned⟩ := tornDown_abandoned
  have self : s.Holds 1 (.closeCallback 1) :=
    ⟨e, he, by rw [bound]; exact List.mem_singleton_self 1⟩
  exact ⟨s, e, hrun, he, abandoned, self, fun closed => closed _ self⟩

theorem abandoned_holds_itself_tornDown :
    ∃ s, run step (new "echo" 1 false) tornDown = .ok s ∧
      (∀ h, s.Holds 1 h ↔ h = .closeCallback 1) ∧ ¬ ConnfdClosed s 1 := by
  obtain ⟨s, e, hrun, he, _, abandoned⟩ := tornDown_abandoned
  exact ⟨s, hrun, abandoned_holds_itself ⟨tornDown, hrun⟩ he abandoned⟩

end Schedules

end TcpServer

end ZDQ
