import ThreadAndNet.ClientLife
import ThreadAndNet.ServerLife

/-!
# What user code is told about a connection

`handleClose` sets `state_` to kDisconnected before anything asks the owner to let
the connection go, and `connectDestroyed` tells user code of the end only where it
finds kConnected: nobody is ever told, neither by a server nor by a client.
-/

namespace ZDQ

open Machine

def Established (h : List Happening) : Prop := ∃ state, .connectEstablished state ∈ h

def Destroyed (h : List Happening) : Prop := ∃ thread, .connectDestroyed thread ∈ h

/-- User code was told once that the connection is up, and, when it is destroyed, once
that it is down. -/
def Notified (h : List Happening) : Prop :=
  h.count (.connCallback true) = 1 ∧ (Destroyed h → h.count (.connCallback false) = 1)

/-- What user code is told of every connection instead. -/
def ToldUpOnly (h : List Happening) : Prop :=
  h.count (.connCallback true) = 1 ∧ h.count (.connCallback false) = 0

theorem ToldUpOnly.notified_iff {h : List Happening} (told : ToldUpOnly h) :
    Notified h ↔ ¬ Destroyed h := by
  constructor
  · intro notified destroyed
    have once := notified.2 destroyed
    rw [told.2] at once
    cases once
  · intro alive
    exact ⟨told.1, fun destroyed => absurd destroyed alive⟩

namespace Life

theorem Traffic.count_connCallback {traffic : List Happening} (ht : Traffic traffic)
    (connected : Bool) : traffic.count (.connCallback connected) = 0 := by
  refine List.count_eq_zero.mpr fun mem => ?_
  rcases ht _ mem with h | h <;> cases h

/-- After the opening, a history of a life says nothing more to user code. -/
theorem toldUpOnly_opening {traffic after : List Happening} (ht : Traffic traffic)
    (silent : ∀ connected, .connCallback connected ∉ after) :
    ToldUpOnly (opening ++ traffic ++ after) := by
  have count (connected : Bool) : after.count (.connCallback connected) = 0 :=
    List.count_eq_zero.mpr (silent connected)
  constructor <;> simp [opening, List.count_append, ht.count_connCallback, count]

theorem Stage.toldUpOnly {base own : Nat} {v : Life} (stage : Stage base own v)
    (established : Established v.track.history) : ToldUpOnly v.track.history := by
  cases stage with
  | accepted _ _ _ _ _ trace =>
    obtain ⟨state, mem⟩ := established
    rw [trace] at mem
    cases mem
  | up traffic ht _ _ _ _ trace =>
    rw [trace, ← List.append_nil (opening ++ traffic)]
    exact toldUpOnly_opening ht (by simp)
  | closed traffic ht _ _ _ trace =>
    rw [trace]
    exact toldUpOnly_opening ht (by simp)
  | removed traffic _ _ ht _ _ _ _ _ trace =>
    rw [trace]
    exact toldUpOnly_opening ht (by simp)
  | destroyed traffic ht _ _ _ trace =>
    rw [trace]
    exact toldUpOnly_opening ht (by simp)

end Life

/-- What some run of a server or of a client makes happen to one of its connections. -/
inductive InRun : List Happening → Prop
  | server {name : String} {numThreads : Nat} {wc : Bool} {s : TcpServer} {c : Nat} {e : Served}
      (reached : Reaches TcpServer.step (.new name numThreads wc) s)
      (he : s.served c = some e) : InRun e.track.history
  | client {wc : Bool} {s : ClientLoop} {c : Nat} {e : ClientConn}
      (reached : Reaches ClientLoop.step (.new wc) s)
      (he : s.conns c = some e) : InRun e.track.history

theorem InRun.toldUpOnly {h : List Happening} (inRun : InRun h) (established : Established h) :
    ToldUpOnly h := by
  cases inRun with
  | server reached he =>
    exact ((TcpServer.reached_alive reached).inv he).stage.toldUpOnly established
  | client reached he =>
    exact ((ClientLoop.reached_alive reached).inv he).stage.toldUpOnly established

/-- In every run of a server or a client, user code is told once that a connection is
up and never that it is down; so a connection that was destroyed went unnoticed. -/
theorem notified_iff_not_destroyed {h : List Happening} (inRun : InRun h)
    (established : Established h) : ToldUpOnly h ∧ (Notified h ↔ ¬ Destroyed h) :=
  have told := inRun.toldUpOnly established
  ⟨told, told.notified_iff⟩

section Schedules

def answers : ClientLoop.Answers := ⟨.accepted 0, none, none, ⟨none, none, none⟩⟩

/-- A client connects on descriptor 9, the peer closes, the connection is destroyed. -/
def connectsAndCloses : List ClientLoop.Op :=
  [.connect (some 0) ⟨some 9, some .EINPROGRESS, none⟩, .move .loop, .move .test,
    .move (.polled [.connector]),
    .connectorEvent POLLOUT ⟨none, TcpServer.names, none⟩ TcpServer.names,
    .move .doAppendFunctors, .functor answers, .move .functorsDone, .move .test,
    .move (.polled [.conn 1]), .event POLLIN ⟨.read [], [], .accepted 0, none⟩ answers,
    .move .doAppendFunctors, .functor answers]

/-- What both runs end with, the connection being destroyed on this thread. -/
def unnoticed (thread : Nat) : List Happening :=
  [.connectEstablished .kConnecting, .connCallback true, .event, .closeCallback, .removed 0,
    .connectDestroyed thread]

theorem unnoticed_established (thread : Nat) : Established (unnoticed thread) :=
  ⟨.kConnecting, List.mem_cons_self⟩

theorem unnoticed_destroyed (thread : Nat) : Destroyed (unnoticed thread) :=
  ⟨thread, by simp [unnoticed]⟩

set_option maxRecDepth 20000 in
theorem tornDown_unnoticed : ∃ s e,
    run TcpServer.step (.new "echo" 1 false) TcpServer.tornDown = .ok s ∧
      s.served 1 = some e ∧ e.track.history = unnoticed 1 :=
  ⟨_, _, rfl, rfl, rfl⟩

set_option maxRecDepth 20000 in
theorem connectsAndCloses_unnoticed : ∃ s e,
    run ClientLoop.step (.new false) connectsAndCloses = .ok s ∧
      s.conns 1 = some e ∧ e.track.history = unnoticed 0 :=
  ⟨_, _, rfl, rfl, rfl⟩

/-- The peer of a server's and of a client's connection closes. -/
theorem not_notified_peer_closes :
    (∃ s e, run TcpServer.step (.new "echo" 1 false) TcpServer.tornDown = .ok s ∧
      s.served 1 = some e ∧ Established e.track.history ∧ ¬ Notified e.track.history) ∧
    (∃ s e, run ClientLoop.step (.new false) connectsAndCloses = .ok s ∧
      s.conns 1 = some e ∧ Established e.track.history ∧ ¬ Notified e.track.history) := by
  have untold (thread : Nat) : ¬ Notified (unnoticed thread) := by
    intro notified
    have once := notified.2 (unnoticed_destroyed thread)
    simp [unnoticed] at once
  constructor
  · obtain ⟨s, e, hrun, he, trace⟩ := tornDown_unnoticed
    refine ⟨s, e, hrun, he, ?_⟩
    rw [trace]
    exact ⟨unnoticed_established 1, untold 1⟩
  · obtain ⟨s, e, hrun, he, trace⟩ := connectsAndCloses_unnoticed
    refine ⟨s, e, hrun, he, ?_⟩
    rw [trace]
    exact ⟨unnoticed_established 0, untold 0⟩

theorem notified_iff_not_destroyed_peer_closes :
    (ToldUpOnly (unnoticed 1) ∧ (Notified (unnoticed 1) ↔ ¬ Destroyed (unnoticed 1))) ∧
    (ToldUpOnly (unnoticed 0) ∧ (Notified (unnoticed 0) ↔ ¬ Destroyed (unnoticed 0))) := by
  obtain ⟨s, e, hrun, he, trace⟩ := tornDown_unnoticed
  obtain ⟨t, d, hrun', hd, trace'⟩ := connectsAndCloses_unnoticed
  have server := InRun.server ⟨_, hrun⟩ he
  have client := InRun.client ⟨_, hrun'⟩ hd
  rw [trace] at server
  rw [trace'] at client
  exact ⟨notified_iff_not_destroyed server (unnoticed_established 1),
    notified_iff_not_destroyed client (unnoticed_established 0)⟩

end Schedules

end ZDQ
