import ThreadAndNet.ConnectorMoves

/-!
# What became of the connector's sockets

The book is kept from the connector's calls alone. A descriptor may be used
again once it is closed, so a socket is an entry and not a number.
-/

namespace ZDQ

open Machine

inductive SocketFate where
  /-- the outcome of its attempt is not known yet -/
  | held
  | closed
  | handedOver
deriving DecidableEq

structure SocketBook where
  /-- all sockets that were created, the last one first -/
  sockets : List (Nat × SocketFate)
  /-- the descriptor that has a slot in the poller -/
  registered : Option Nat

namespace SocketBook

def empty : SocketBook := ⟨[], none⟩

/-- The last held socket of this number has met its fate. -/
def settle (sockfd : Nat) (fate : SocketFate) : List (Nat × SocketFate) → List (Nat × SocketFate)
  | [] => []
  | x :: rest =>
    if x = (sockfd, .held) then (sockfd, fate) :: rest else x :: settle sockfd fate rest

def note (b : SocketBook) : ConnectorCall → SocketBook
  | .socket sockfd => { b with sockets := (sockfd, .held) :: b.sockets }
  | .update channel => { b with registered := some channel.fd }
  | .remove _ => { b with registered := none }
  | .close sockfd => { b with sockets := settle sockfd .closed b.sockets }
  | .newConnectionCallback sockfd => { b with sockets := settle sockfd .handedOver b.sockets }
  | .connect _ => b
  | .appendFuncInLoop _ => b
  | .runAfter _ _ => b

def after (b : SocketBook) (calls : List ConnectorCall) : SocketBook := calls.foldl note b

def ofCalls (calls : List ConnectorCall) : SocketBook := empty.after calls

/-- The outcome of every attempt is known. -/
def Settled (sockets : List (Nat × SocketFate)) : Prop := ∀ x ∈ sockets, x.2 ≠ .held

@[simp] theorem after_nil (b : SocketBook) : b.after [] = b := rfl

@[simp] theorem after_cons (b : SocketBook) (call : ConnectorCall)
    (rest : List ConnectorCall) : b.after (call :: rest) = (b.note call).after rest := rfl

@[simp] theorem after_append (b : SocketBook) (calls more : List ConnectorCall) :
    b.after (calls ++ more) = (b.after calls).after more :=
  List.foldl_append

theorem ofCalls_append (calls more : List ConnectorCall) :
    ofCalls (calls ++ more) = (ofCalls calls).after more :=
  after_append empty calls more

@[simp] theorem after_retryTimer (b : SocketBook) (k : Connector) :
    b.after k.retryTimer = b := by
  unfold Connector.retryTimer
  split <;> rfl

@[simp] theorem settle_head (sockfd : Nat) (fate : SocketFate)
    (rest : List (Nat × SocketFate)) :
    settle sockfd fate ((sockfd, .held) :: rest) = (sockfd, fate) :: rest := by
  simp [settle]

theorem settled_nil : Settled [] := by simp [Settled]

theorem Settled.cons {sockets : List (Nat × SocketFate)} (h : Settled sockets) {sockfd : Nat}
    {fate : SocketFate} (known : fate ≠ .held) : Settled ((sockfd, fate) :: sockets) := by
  intro x mem
  rcases List.mem_cons.mp mem with rfl | mem
  · exact known
  · exact h x mem

theorem Settled.append {sockets more : List (Nat × SocketFate)} (h : Settled sockets)
    (h' : Settled more) : Settled (sockets ++ more) := by
  intro x mem
  exact (List.mem_append.mp mem).elim (h x) (h' x)

theorem Settled.absent {sockets : List (Nat × SocketFate)} (h : Settled sockets)
    (sockfd : Nat) : (sockfd, .held) ∉ sockets := fun mem => h _ mem rfl

/-- The book over the calls with which an attempt begins. -/
theorem after_attempt (b : SocketBook) (sockfd : Nat) :
    b.after [.socket sockfd, .connect sockfd,
      .update (Connector.attemptChannel sockfd)] =
      ⟨(sockfd, .held) :: b.sockets, some sockfd⟩ := rfl

/-- The book over the calls of an attempt that failed at once. -/
theorem after_refused (b : SocketBook) (sockfd : Nat) :
    b.after [.socket sockfd, .connect sockfd, .close sockfd] =
      ⟨(sockfd, .closed) :: b.sockets, b.registered⟩ := by
  simp [note]

theorem after_removal (b : SocketBook) (ch : Channel) :
    b.after (Connector.removal ch) = ⟨b.sockets, none⟩ := rfl

theorem mem_settle {sockfd other : Nat} {fate : SocketFate} (known : fate ≠ .held)
    {sockets : List (Nat × SocketFate)}
    (mem : (other, .held) ∈ settle sockfd fate sockets) : (other, .held) ∈ sockets := by
  induction sockets with
  | nil => exact mem
  | cons x rest ih =>
    simp only [settle] at mem
    split at mem
    · rcases List.mem_cons.mp mem with same | mem
      · cases same
        exact absurd rfl known
      · exact List.mem_cons_of_mem x mem
    · rcases List.mem_cons.mp mem with rfl | mem
      · exact List.mem_cons_self
      · exact List.mem_cons_of_mem x (ih mem)

/-- What is held now was held before or has just been created. -/
theorem held_after {b : SocketBook} {calls : List ConnectorCall} {sockfd : Nat}
    (mem : (sockfd, .held) ∈ (b.after calls).sockets) :
    (sockfd, .held) ∈ b.sockets ∨ .socket sockfd ∈ calls := by
  induction calls generalizing b with
  | nil => exact .inl mem
  | cons call rest ih =>
    rcases ih mem with before | created
    · cases call with
      | socket other =>
        rcases List.mem_cons.mp before with same | before
        · cases same
          exact .inr List.mem_cons_self
        · exact .inl before
      | close other => exact .inl (mem_settle (by simp) before)
      | newConnectionCallback other => exact .inl (mem_settle (by simp) before)
      | _ => exact .inl before
    · exact .inr (List.mem_cons_of_mem call created)

/-- The sockets that were handed over, the first one first. -/
def given (sockets : List (Nat × SocketFate)) : List Nat :=
  ((sockets.filter (fun x => x.2 = .handedOver)).map Prod.fst).reverse

@[simp] theorem given_held (sockfd : Nat) (sockets : List (Nat × SocketFate)) :
    given ((sockfd, .held) :: sockets) = given sockets := rfl

@[simp] theorem given_closed (sockfd : Nat) (sockets : List (Nat × SocketFate)) :
    given ((sockfd, .closed) :: sockets) = given sockets := rfl

@[simp] theorem given_handedOver (sockfd : Nat) (sockets : List (Nat × SocketFate)) :
    given ((sockfd, .handedOver) :: sockets) = given sockets ++ [sockfd] :=
  List.reverse_cons

end SocketBook

end ZDQ
