import ThreadAndNet.ClientConnections
import ThreadAndNet.Printf

/-!
# The names of a client's connections

`newConnection` formats the name with `":%s#%d"` and passes the port, a
`uint16_t`, for the `%s`. No call of it is well defined, so a run names its
connections as it should only if it makes none.
-/

namespace ZDQ

open Machine

/-- The port as it is stored. -/
def InetAddress.getPort (addr : InetAddress) : Nat := addr.sin_port.toNat

namespace TcpClient

/-- The name `newConnection` makes; both arguments are passed as `int`. -/
def connName (c : TcpClient) (name : String) (peerAddr : InetAddress) :
    Except Failure String :=
  match Printf.snprintf 32 ":%s#%d" [.int peerAddr.getPort, .int c.nextConnId] with
  | none => .error .undefined
  | some buf => .ok (name ++ String.ofList buf)

/-- The port is no string, whatever its value. -/
theorem connName_undefined (c : TcpClient) (name : String) (peerAddr : InetAddress) :
    c.connName name peerAddr = .error .undefined := by
  have directives : Printf.parse ":%s#%d".toList = some [.text ':', .s, .text '#', .d 0] := by
    decide
  have mismatch : Printf.snprintf 32 ":%s#%d" [.int peerAddr.getPort, .int c.nextConnId] =
      none := by
    simp only [Printf.snprintf, Printf.format, directives, Option.bind_some,
      Printf.expand_text, Printf.expand_s_int, Option.map_none]
  rw [connName, mismatch]

theorem newConnection_peer {c client : TcpClient} {sockfd : Nat} {names : SockNames}
    {conn : TcpConnection} {calls : List Call}
    (h : c.newConnection sockfd names = .ok (client, conn, calls)) :
    ∃ peerAddr, InetAddress.getPeerInetAddress names = .ok peerAddr := by
  unfold newConnection at h
  split at h
  · cases h
  · rename_i peerAddr found
    exact ⟨peerAddr, found⟩

end TcpClient

/-- A connection's number, the port of its peer and the name it was to get. -/
structure Naming where
  port : Nat
  id : Nat
  connName : Except Failure String

/-- The name of the client with the port and the number behind it, in full. -/
def Naming.whole (name : String) (n : Naming) : String :=
  name ++ ":" ++ toString n.port ++ "#" ++ toString n.id

/-- Every name is defined and whole, and no two are equal. -/
structure WellNamed (name : String) (given : List Naming) : Prop where
  whole : ∀ n ∈ given, n.connName = .ok (n.whole name)
  distinct : (given.map Naming.connName).Nodup

namespace ClientLoop

/-- What the connector reports in this event makes `newConnection` be called. -/
def Connects (s : ClientLoop) : Op → Prop
  | .connectorEvent revents k _ => ∃ l calls sockfd,
    s.client.connector.handleEvent revents k = .ok (l, calls) ∧
      calls.getLast? = some (.newConnectionCallback sockfd)
  | _ => False

/-- The name a step from `s` to `t` gave, if it made a connection. -/
def named (name : String) (s t : ClientLoop) : Op → List Naming
  | .connectorEvent _ _ names =>
    match InetAddress.getPeerInetAddress names with
    | .error _ => []
    | .ok peerAddr =>
      if t.client.nextConnId = s.client.nextConnId then []
      else [⟨peerAddr.getPort, s.client.nextConnId, s.client.connName name peerAddr⟩]
  | _ => []

/-- A step, with the names given so far beside it. -/
def namingStep (name : String) (s : ClientLoop × List Naming) (op : Op) :
    Except Failure (ClientLoop × List Naming) :=
  (s.1.step op).map (fun t => (t, s.2 ++ named name s.1 t op))

theorem named_of_same {name : String} {s t : ClientLoop} {op : Op}
    (same : t.client.nextConnId = s.client.nextConnId) : named name s t op = [] := by
  cases op with
  | connectorEvent revents k names =>
    simp only [named, same, if_true]
    split <;> rfl
  | _ => rfl

/-- A connection is made, under the next number and with a peer, when the connector
reports one. -/
theorem connectorEvent_connects {s t : ClientLoop} {revents : BitVec 32}
    {k : Connector.EventAnswers} {names : SockNames}
    (h : s.connectorEvent revents k names = .ok t) :
    ¬ s.Connects (.connectorEvent revents k names) ∧
        t.client.nextConnId = s.client.nextConnId ∨
      s.Connects (.connectorEvent revents k names) ∧
        t.client.nextConnId = s.client.nextConnId + 1 ∧
        ∃ peerAddr, InetAddress.getPeerInetAddress names = .ok peerAddr := by
  obtain ⟨_, client, calls, made, m, hevent, hrun, created⟩ := connectorEvent_cases h
  obtain ⟨_, beside⟩ := run_performConnector_life hrun
  have number : m.client.nextConnId = client.nextConnId := by rw [beside.client]
  obtain ⟨l, handled, outcome⟩ := TcpClient.connectorEvent_cases hevent
  rcases outcome with ⟨rfl, rfl, other⟩ | ⟨sockfd, conn, connCalls, rfl, last, hnew⟩
  · obtain ⟨_, rfl⟩ | ⟨_, _, absent, _⟩ := created
    · refine .inl ⟨?_, number⟩
      rintro ⟨l', calls', sockfd, handled', last⟩
      rw [handled] at handled'
      cases handled'
      exact other sockfd last
    · cases absent
  · obtain ⟨absent, _⟩ | ⟨_, _, same, _, established⟩ := created
    · cases absent
    cases same
    obtain ⟨peerAddr, found⟩ := TcpClient.newConnection_peer hnew
    obtain ⟨rfl, quiet⟩ := TcpClient.newConnection_cases hnew
    obtain ⟨_, _, open_, _⟩ := TcpConnection.connectEstablished_cases quiet
    refine .inr ⟨⟨l, calls, sockfd, handled, last⟩, ?_, peerAddr, found⟩
    rcases act_connector established with spares | ⟨_, _, made, mem, _⟩
    · rw [spares.client]
      exact number
    · cases made
      exact absurd mem open_

/-- A step names a connection if it makes one, and the name is undefined. -/
theorem named_cases (name : String) {s t : ClientLoop} {op : Op} (h : s.step op = .ok t) :
    ¬ s.Connects op ∧ named name s t op = [] ∨
      s.Connects op ∧ ∃ n, named name s t op = [n] ∧ n.connName = .error .undefined := by
  cases step_cases h with
  | connectorEvent next handled =>
    rcases connectorEvent_connects handled with ⟨none, same⟩ | ⟨some, number, peerAddr, found⟩
    · exact .inl ⟨none, named_of_same same⟩
    · refine .inr ⟨some, ⟨peerAddr.getPort, s.client.nextConnId, s.client.connName name peerAddr⟩,
        ?_, s.client.connName_undefined name peerAddr⟩
      have other : t.client.nextConnId ≠ s.client.nextConnId :=
        fun same => absurd (number.symm.trans same) (Nat.succ_ne_self _)
      simp only [named, found, if_neg other]
  | _ => exact .inl ⟨id, rfl⟩

/-- The names of a run are those given before and one for each connection made. -/
theorem run_named {name : String} {ops : List Op} {s t : ClientLoop} {given all : List Naming}
    (h : run (namingStep name) (s, given) ops = .ok (t, all)) :
    ∃ more, all = given ++ more ∧ (∀ n ∈ more, n.connName = .error .undefined) ∧
      (more = [] ↔ Along step (fun s op => ¬ s.Connects op) s ops) := by
  induction ops generalizing s given with
  | nil =>
    cases h
    exact ⟨[], (List.append_nil _).symm, by simp, iff_of_true rfl trivial⟩
  | cons op rest ih =>
    obtain ⟨m, hm, hrest⟩ := run_cons_inv h
    obtain ⟨u, hu, rfl⟩ := map_cases hm
    obtain ⟨more, rfl, undefined, none⟩ := ih hrest
    rcases named_cases name hu with ⟨quiet, empty⟩ | ⟨reports, n, one, failed⟩
    · refine ⟨more, by rw [empty, List.append_nil], undefined, ?_⟩
      rw [along_cons_ok hu, none]
      exact ⟨fun along => ⟨quiet, along⟩, fun both => both.2⟩
    · refine ⟨n :: more, by rw [one, List.append_assoc, List.singleton_append], ?_, ?_⟩
      · intro x hx
        rcases List.mem_cons.mp hx with rfl | hx
        · exact failed
        · exact undefined x hx
      · rw [along_cons_ok hu]
        exact iff_of_false (by simp) (fun both => both.1 reports)

/-- Whatever it connects to and however often, a run gives its connections the names they
should have only if its connector never reports one. -/
theorem wellNamed_iff {wc : Bool} {name : String} {ops : List Op} {s : ClientLoop}
    {given : List Naming} (ran : run (namingStep name) (new wc, []) ops = .ok (s, given)) :
    WellNamed name given ↔ Along step (fun s op => ¬ s.Connects op) (new wc) ops := by
  obtain ⟨more, all, undefined, none⟩ := run_named ran
  rw [List.nil_append] at all
  subst all
  rw [← none]
  constructor
  · intro well
    cases given with
    | nil => rfl
    | cons n rest =>
      have whole := well.whole n List.mem_cons_self
      rw [undefined n List.mem_cons_self] at whole
      cases whole
  · rintro rfl
    exact ⟨by simp, by simp⟩

/-- The client connects to a port, and the attempt succeeds at once. -/
def connects : List Op := [.connect (some 0) (.inProgress 5), .move .loop, .move .test,
  .move (.polled [.connector]), .connectorEvent POLLOUT ⟨none, twoEnds, none⟩ twoEnds]

theorem connects_named :
    ∃ s, run (namingStep "client") (new false, []) connects =
      .ok (s, [⟨2, 1, .error .undefined⟩]) :=
  ⟨_, rfl⟩

theorem wellNamed_iff_connects :
    ∃ s given, run (namingStep "client") (new false, []) connects = .ok (s, given) ∧
      (WellNamed "client" given ↔
        Along step (fun s op => ¬ s.Connects op) (new false) connects) := by
  obtain ⟨s, ran⟩ := connects_named
  exact ⟨s, _, ran, wellNamed_iff ran⟩

theorem not_wellNamed_connects :
    ∃ s given, run (namingStep "client") (new false, []) connects = .ok (s, given) ∧
      ¬ WellNamed "client" given := by
  obtain ⟨s, ran⟩ := connects_named
  refine ⟨s, _, ran, fun well => ?_⟩
  cases well.whole _ List.mem_cons_self

end ClientLoop

end ZDQ
