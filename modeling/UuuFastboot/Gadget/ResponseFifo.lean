import UuuFastboot.Lib.Linked
import Mathlib.Data.List.Nodup
import Mathlib.Logic.Function.Basic

namespace UuuFastboot

open Linked

/-- `usb_req`: a node of the queue of responses; `inReq` says whether its USB request was allocated. -/
structure UsbReq where
  next : Option Nat
  inReq : Bool

/-- The part of `struct f_fastboot` that holds the queue. A node is named by the number of its allocation, and the
heap has the nodes that were not freed. `inReq` is `in_req != NULL`. `enqueued` and `released` list the nodes in the
order in which they were put in and freed. -/
structure Fifo where
  heap : Nat → Option UsbReq
  allocated : Nat
  front : Option Nat
  rear : Option Nat
  inReq : Bool
  enqueued : List Nat
  released : List Nat

/-- As `fastboot_set_alt` leaves a gadget that was never used. -/
def Fifo.start : Fifo := ⟨fun _ => none, 0, none, none, true, [], []⟩

/-- Free the node at the front; no result where it was freed before or has no request to free. -/
def Fifo.release (f : Fifo) (a : Nat) : Option Fifo :=
  match f.heap a with
  | none => none
  | some req =>
    if req.inReq then
      some { f with heap := Function.update f.heap a none, front := req.next, released := f.released ++ [a] }
    else none

/-- The loop of `fastboot_disable` over the queue, for at most `rounds` nodes. -/
def Fifo.drain : Nat → Fifo → Option Fifo
  | 0, _ => none
  | rounds + 1, f =>
    match f.front with
    | none => some { f with rear := none, inReq := false }
    | some a => (f.release a).bind (drain rounds)

/-- `fastboot_disable`. A queue that ends has no more nodes than were allocated. -/
def fastbootDisable (f : Fifo) : Option Fifo := if f.inReq then f.drain (f.allocated + 1) else some f

/-- The node `a` is hung behind the rear; no result where the rear is NULL while the front is not, or was freed. -/
def Fifo.enqueue (f : Fifo) (a : Nat) (inReq : Bool) : Option Fifo :=
  if f.front = none ∧ f.rear = none then
    some { f with heap := Function.update f.heap a (some ⟨none, inReq⟩), front := some a, rear := some a }
  else
    match f.rear with
    | none => none
    | some r =>
      match f.heap r with
      | none => none
      | some last =>
        some { f with
          heap := Function.update (Function.update f.heap r (some { last with next := some a })) a (some ⟨none, inReq⟩)
          rear := some a }

/-- `fastboot_tx_write_more`: `node` and `inReq` say whether the node and its request can be allocated. Whether the
controller takes the request makes no difference to the queue. -/
def fastbootTxWriteMore (node inReq : Bool) (f : Fifo) : Option Fifo :=
  if node then
    let a := f.allocated
    let f := { f with allocated := a + 1, enqueued := f.enqueued ++ [a] }
    (f.enqueue a inReq).bind (fun f => if inReq then some f else fastbootDisable f)
  else some f

/-- `fastboot_fifo_complete`; a completion with an error does nothing. -/
def fastbootFifoComplete (ok : Bool) (f : Fifo) : Option Fifo :=
  if ok then
    match f.front with
    | none => some f
    | some a => f.release a
  else some f

/-- What happens to the queue: a response is put in, an IN request completes, a command arrives, the interface is
taken down, or set up anew. -/
inductive FifoEvent where
  | write (node inReq : Bool)
  | complete (ok : Bool)
  | command
  | disable
  | setAlt
  deriving DecidableEq, Repr

/-- The queue after an event; no result where a node is used that is not there. -/
def Fifo.step (f : Fifo) : FifoEvent → Option Fifo
  | .write node inReq => fastbootTxWriteMore node inReq f
  | .complete ok => fastbootFifoComplete ok f
  | .command => some { f with front := none, rear := none }
  | .disable => fastbootDisable f
  | .setAlt => some { f with front := none, rear := none, inReq := true }

def Fifo.run : Fifo → List FifoEvent → Option Fifo
  | f, [] => some f
  | f, e :: rest => (f.step e).bind (fun f => run f rest)

/-- A well-formed queue: the nodes that were put in are different, those freed are the first of them, and the others
are chained from the front in the order in which they came. The rear is the last of these, and when there is none it
is not a node that was freed. -/
def Fifo.WellFormed (f : Fifo) : Prop :=
  ∃ q, Chain UsbReq.next f.heap f.front q ∧ (q ≠ [] → f.rear = q.getLast?) ∧
    (q = [] → ∀ r, f.rear = some r → (f.heap r).isSome) ∧ f.enqueued.Nodup ∧ f.enqueued = f.released ++ q

def Fifo.Sound (f : Fifo) (events : List FifoEvent) : Prop :=
  ∀ done, done <+: events → ∃ f', f.run done = some f' ∧ f'.WellFormed

/-- What a run can tell of the queue: for each node that waits whether it has a request, and whether the interface is
up. -/
structure Pipe where
  waiting : List Bool
  up : Bool
  deriving DecidableEq, Repr

/-- The events after which the queue is still well-formed. The last node that waits must not be freed by a
completion, no node may wait when a command arrives or the interface is set up, and while the interface is up the
request of each node must be there. -/
def Pipe.step (p : Pipe) : FifoEvent → Option Pipe
  | .write node inReq =>
    if node then if !inReq && p.up then none else some { p with waiting := p.waiting ++ [inReq] } else some p
  | .complete ok =>
    if ok then
      match p.waiting with
      | [] => some p
      | [_] => none
      | inReq :: rest => if inReq then some { p with waiting := rest } else none
    else some p
  | .command => if p.waiting = [] then some p else none
  | .disable => if p.up then if p.waiting.all id then some ⟨[], false⟩ else none else some p
  | .setAlt => if p.waiting = [] then some { p with up := true } else none

def Pipe.run : Pipe → List FifoEvent → Option Pipe
  | p, [] => some p
  | p, e :: rest => (p.step e).bind (fun p => run p rest)

/-- The nodes `q` wait in the queue, and `waiting` says which of them have a request. -/
structure Fifo.Queue (f : Fifo) (q : List Nat) (waiting : List Bool) : Prop where
  chain : Chain UsbReq.next f.heap f.front q
  account : f.enqueued = f.released ++ q
  requests : q.map (fun a => (f.heap a).map UsbReq.inReq) = waiting.map some
  numbered : f.enqueued = List.range f.allocated

def Fifo.Holds (f : Fifo) (p : Pipe) : Prop := ∃ q, f.Queue q p.waiting ∧ f.rear = q.getLast? ∧ f.inReq = p.up

theorem Fifo.Holds.wellFormed {f : Fifo} {p : Pipe} (holds : f.Holds p) : f.WellFormed := by
  obtain ⟨q, queue, rear, -⟩ := holds
  refine ⟨q, queue.chain, fun _ => rear, fun empty r named => ?_, ?_, queue.account⟩
  · rw [rear, empty] at named
    cases named
  · rw [queue.numbered]
    exact List.nodup_range

namespace Fifo.Queue

variable {f : Fifo} {q : List Nat} {waiting : List Bool}

theorem length_eq (queue : f.Queue q waiting) : q.length = waiting.length := by
  have same := congrArg List.length queue.requests
  simpa using same

theorem length_le (queue : f.Queue q waiting) : q.length ≤ f.allocated := by
  have same := congrArg List.length (queue.numbered.symm.trans queue.account)
  rw [List.length_range, List.length_append] at same
  omega

theorem nodup (queue : f.Queue q waiting) : q.Nodup := by
  have all : (f.released ++ q).Nodup := by
    rw [← queue.account, queue.numbered]
    exact List.nodup_range
  exact (List.nodup_append.mp all).2.1

theorem old (queue : f.Queue q waiting) {a : Nat} (member : a ∈ q) : a < f.allocated := by
  rw [← List.mem_range, ← queue.numbered, queue.account]
  exact List.mem_append_right _ member

theorem release {a : Nat} (queue : f.Queue (a :: q) (true :: waiting)) :
    ∃ f', f.release a = some f' ∧ f'.Queue q waiting ∧ f'.rear = f.rear ∧ f'.inReq = f.inReq ∧ f'.heap a = none := by
  have fresh := (List.nodup_cons.mp queue.nodup).1
  obtain ⟨chain, account, requests, numbered⟩ := queue
  obtain ⟨req, -, here, rest⟩ := chain.uncons
  rw [List.map_cons, List.map_cons, here] at requests
  obtain ⟨head, tail⟩ := List.cons.inj requests
  have inReq : req.inReq = true := Option.some.inj head
  have other : ∀ x ∈ q, Function.update f.heap a none x = f.heap x := fun x member =>
    Function.update_of_ne (ne_of_mem_of_not_mem member fresh) ..
  refine ⟨{ f with heap := Function.update f.heap a none, front := req.next, released := f.released ++ [a] }, ?_,
    ⟨rest.congr other, ?_, ?_, numbered⟩, rfl, rfl,
    Function.update_self ..⟩
  · simp only [Fifo.release, here, inReq, if_true]
  · rw [account, List.append_assoc, List.singleton_append]
  · rw [← tail]
    exact List.map_congr_left (fun x member => congrArg (Option.map UsbReq.inReq) (other x member))

theorem release_none {a : Nat} (queue : f.Queue (a :: q) (false :: waiting)) : f.release a = none := by
  obtain ⟨chain, -, requests, -⟩ := queue
  obtain ⟨req, -, here, -⟩ := chain.uncons
  rw [List.map_cons, List.map_cons, here] at requests
  have inReq : req.inReq = false := Option.some.inj (List.cons.inj requests).1
  rw [Fifo.release, here]
  simp only [inReq, Bool.false_eq_true, if_false]

/-- `fastboot_disable` frees all nodes in turn if each has its request, and else uses one that is not there. -/
theorem drain {rounds : Nat} (queue : f.Queue q waiting) (enough : q.length < rounds) :
    if waiting.all id then
      ∃ f', f.drain rounds = some f' ∧ f'.Queue [] [] ∧ f'.rear = none ∧ f'.inReq = false
    else f.drain rounds = none := by
  induction q generalizing f waiting rounds with
  | nil =>
    obtain ⟨rounds, rfl⟩ : ∃ n, rounds = n + 1 := ⟨rounds - 1, by simp at enough; omega⟩
    have none : waiting = [] := List.eq_nil_of_length_eq_zero queue.length_eq.symm
    have front : f.front = .none := queue.chain.head?
    subst none
    simp only [List.all_nil, if_true]
    exact ⟨{ f with rear := .none, inReq := false }, by rw [Fifo.drain, front],
      ⟨queue.chain, queue.account, rfl, queue.numbered⟩, rfl, rfl⟩
  | cons a q ih =>
    obtain ⟨rounds, rfl⟩ : ∃ n, rounds = n + 1 := ⟨rounds - 1, by simp at enough; omega⟩
    have front : f.front = some a := queue.chain.head?
    rw [Fifo.drain, front]
    cases waiting with
    | nil => exact absurd queue.length_eq (by simp)
    | cons inReq rest =>
      cases inReq with
      | false =>
        simp only [List.all_cons, id_eq, Bool.false_and, Bool.false_eq_true, if_false]
        rw [queue.release_none]
        rfl
      | true =>
        obtain ⟨f', freed, queue', -, -, -⟩ := queue.release
        simp only [List.all_cons, id_eq, Bool.true_and]
        rw [freed]
        exact ih queue' (by simpa using enough)

theorem enqueue (inReq : Bool) (queue : f.Queue q waiting) (rear : f.rear = q.getLast?) :
    ∃ f', Fifo.enqueue { f with allocated := f.allocated + 1, enqueued := f.enqueued ++ [f.allocated] } f.allocated
        inReq = some f' ∧
      f'.Queue (q ++ [f.allocated]) (waiting ++ [inReq]) ∧ f'.rear = some f.allocated ∧ f'.inReq = f.inReq := by
  have nodup := queue.nodup
  have new : f.allocated ∉ q := fun member => Nat.lt_irrefl _ (queue.old member)
  obtain ⟨chain, account, requests, numbered⟩ := queue
  have numbered' : f.enqueued ++ [f.allocated] = List.range (f.allocated + 1) := by
    rw [numbered, List.range_succ]
  have front := chain.head?
  rcases List.eq_nil_or_concat q with rfl | ⟨before, r, rfl⟩
  · refine ⟨{ f with
        heap := Function.update f.heap f.allocated (some ⟨none, inReq⟩)
        allocated := f.allocated + 1
        enqueued := f.enqueued ++ [f.allocated]
        front := some f.allocated
        rear := some f.allocated }, ?_, ⟨.cons (Function.update_self ..) .nil, ?_, ?_, numbered'⟩, rfl, rfl⟩
    · simp only [Fifo.enqueue, front, rear, List.head?_nil, List.getLast?_nil, and_self, if_true]
    · simp only [account, List.append_nil, List.nil_append]
    · have none : waiting = [] := by simpa using requests.symm
      simp [none]
  · rw [List.concat_eq_append] at *
    obtain ⟨last, here⟩ := chain.live (a := r) (by simp)
    have some : f.front ≠ none := by simp [front]
    have behind : f.rear = .some r := by rw [rear, List.getLast?_concat]
    have apart : r ≠ f.allocated := ne_of_mem_of_not_mem (by simp) new
    have once : r ∉ before := fun member => (List.nodup_append.mp nodup).2.2 r member r (by simp) rfl
    obtain ⟨heap, hung⟩ : ∃ heap, heap = Function.update (Function.update f.heap r (.some { last with
      next := .some f.allocated })) f.allocated (.some ⟨none, inReq⟩) := ⟨_, rfl⟩
    have atRear : heap r = .some { last with next := .some f.allocated } := by
      rw [hung, Function.update_of_ne apart, Function.update_self]
    have atNew : heap f.allocated = .some ⟨none, inReq⟩ := by rw [hung, Function.update_self]
    have other : ∀ x ∈ before, heap x = f.heap x := fun x member => by
      rw [hung, Function.update_of_ne (ne_of_mem_of_not_mem (by simp [member]) new),
        Function.update_of_ne (ne_of_mem_of_not_mem member once)]
    refine ⟨{ f with
        heap := heap
        allocated := f.allocated + 1
        enqueued := f.enqueued ++ [f.allocated]
        rear := .some f.allocated }, ?_, ⟨chain.snoc other atRear rfl atNew rfl, ?_, ?_, numbered'⟩, rfl, rfl⟩
    · simp only [Fifo.enqueue, some, false_and, if_false, behind, here, hung]
    · simp only [account, List.append_assoc]
    · simp only [List.map_append, List.map_cons, List.map_nil, here, Option.map_some] at requests ⊢
      rw [← requests, atRear, atNew, List.map_congr_left (fun x member => congrArg (Option.map UsbReq.inReq) (other x member))]
      rfl

theorem forgotten {f' : Fifo} (queue : f.Queue q waiting) (some : waiting ≠ []) (front : f'.front = none)
    (enqueued : f'.enqueued = f.enqueued) (released : f'.released = f.released) : ¬ f'.WellFormed := by
  rintro ⟨q', chain, -, -, -, account⟩
  rw [front] at chain
  rw [chain.eq_nil, List.append_nil, enqueued, released, queue.account] at account
  have empty : q = [] := by simpa using account
  have length := queue.length_eq
  rw [empty] at length
  exact some (List.eq_nil_of_length_eq_zero length.symm)

end Fifo.Queue

/-- The event keeps the queue well-formed where the run allows it, and breaks it everywhere else. -/
theorem Fifo.Holds.step {f : Fifo} {p : Pipe} (holds : f.Holds p) (e : FifoEvent) :
    match p.step e with
    | some p' => ∃ f', f.step e = some f' ∧ f'.Holds p'
    | none => ∀ f', f.step e = some f' → ¬ f'.WellFormed := by
  obtain ⟨q, queue, rear, up⟩ := holds
  cases e with
  | write node inReq =>
    cases node with
    | false => exact ⟨f, rfl, q, queue, rear, up⟩
    | true =>
      obtain ⟨f', hung, queue', rear', up'⟩ := queue.enqueue inReq rear
      simp only [Fifo.step, Pipe.step, fastbootTxWriteMore, if_true, hung, Option.bind_some]
      cases inReq with
      | true => exact ⟨f', rfl, _, queue', by rw [rear', List.getLast?_concat], up'.trans up⟩
      | false =>
        simp only [Bool.not_false, Bool.true_and, Bool.false_eq_true, if_false, fastbootDisable, up', up]
        by_cases isUp : p.up = true
        · have drained := queue'.drain (Nat.lt_succ_of_le queue'.length_le)
          simp only [List.all_append, List.all_cons, id_eq, Bool.false_and, Bool.and_false, Bool.false_eq_true,
            if_false] at drained
          simp only [isUp, if_true, drained]
          exact nofun
        · rw [Bool.not_eq_true] at isUp
          simp only [isUp, Bool.false_eq_true, if_false]
          exact ⟨f', rfl, _, queue', by rw [rear', List.getLast?_concat], up'.trans (up.trans isUp)⟩
  | complete ok =>
    cases ok with
    | false => exact ⟨f, rfl, q, queue, rear, up⟩
    | true =>
      have front := queue.chain.head?
      simp only [Fifo.step, Pipe.step, fastbootFifoComplete, if_true]
      rcases q with _ | ⟨a, q⟩
      · have none : p.waiting = [] := List.eq_nil_of_length_eq_zero queue.length_eq.symm
        simp only [none, front, List.head?_nil]
        exact ⟨f, rfl, [], none ▸ queue, rear, up⟩
      · rcases waiting : p.waiting with _ | ⟨inReq, rest⟩
        · exact absurd queue.length_eq (by simp [waiting])
        rw [waiting] at queue
        simp only [front, List.head?_cons]
        cases inReq with
        | false =>
          rw [queue.release_none]
          cases rest <;> simp
        | true =>
          obtain ⟨f', freed, queue', rear', up', gone⟩ := queue.release
          rw [freed]
          rcases q with _ | ⟨b, q⟩
          · -- the rear is the node that was freed
            obtain rfl : rest = [] := List.eq_nil_of_length_eq_zero queue'.length_eq.symm
            rintro f'' same ⟨q', chain, -, live, -, -⟩
            cases same
            have front' : f'.front = none := queue'.chain.head?
            rw [front'] at chain
            have named : f'.rear = some a := rear'.trans rear
            have isLive := live chain.eq_nil a named
            rw [gone] at isLive
            cases isLive
          · rcases rest with _ | ⟨second, rest⟩
            · exact absurd queue'.length_eq (by simp)
            · refine ⟨f', rfl, _, queue', ?_, up'.trans up⟩
              rw [rear', rear, List.getLast?_cons_cons]
  | command =>
    simp only [Fifo.step, Pipe.step]
    by_cases none : p.waiting = []
    · rw [if_pos none]
      have empty : q = [] := List.eq_nil_of_length_eq_zero (by rw [queue.length_eq, none]; rfl)
      subst empty
      exact ⟨_, rfl, [], ⟨.nil, queue.account, queue.requests, queue.numbered⟩, rfl, up⟩
    · rw [if_neg none]
      rintro f' same
      cases same
      exact queue.forgotten none rfl rfl rfl
  | disable =>
    simp only [Fifo.step, Pipe.step, fastbootDisable, up]
    by_cases isUp : p.up = true
    · have drained := queue.drain (Nat.lt_succ_of_le queue.length_le)
      simp only [isUp, if_true]
      split at drained
      · next all =>
        obtain ⟨f', run, queue', rear', up'⟩ := drained
        simp only [all, if_true]
        exact ⟨f', run, [], queue', rear', up'⟩
      · next missing =>
        rw [drained, if_neg missing]
        exact nofun
    · simp only [isUp, Bool.false_eq_true, if_false]
      exact ⟨f, rfl, q, queue, rear, up⟩
  | setAlt =>
    simp only [Fifo.step, Pipe.step]
    by_cases none : p.waiting = []
    · rw [if_pos none]
      have empty : q = [] := List.eq_nil_of_length_eq_zero (by rw [queue.length_eq, none]; rfl)
      subst empty
      exact ⟨_, rfl, [], ⟨.nil, queue.account, queue.requests, queue.numbered⟩, rfl, rfl⟩
    · rw [if_neg none]
      rintro f' same
      cases same
      exact queue.forgotten none rfl rfl rfl

theorem Fifo.start_holds : Fifo.start.Holds ⟨[], true⟩ :=
  ⟨[], ⟨.nil, rfl, rfl, rfl⟩, rfl, rfl⟩

theorem Fifo.Holds.sound_iff {f : Fifo} {p : Pipe} (holds : f.Holds p) (events : List FifoEvent) :
    f.Sound events ↔ (p.run events).isSome := by
  induction events generalizing f p with
  | nil =>
    refine ⟨fun _ => rfl, fun _ done before => ⟨f, ?_, holds.wellFormed⟩⟩
    rw [List.prefix_nil.mp before]
    rfl
  | cons e rest ih =>
    have one := holds.step e
    rw [Pipe.run]
    cases next : p.step e with
    | none =>
      rw [next] at one
      refine ⟨fun sound => ?_, nofun⟩
      obtain ⟨f', run, wellFormed⟩ := sound [e] (List.cons_prefix_cons.mpr ⟨rfl, List.nil_prefix⟩)
      obtain ⟨f₁, first, last⟩ := Option.bind_eq_some_iff.mp run
      cases last
      exact absurd wellFormed (one f' first)
    | some p' =>
      rw [next] at one
      obtain ⟨f', first, holds'⟩ := one
      rw [Option.bind_some, ← ih holds']
      constructor
      · intro sound done before
        obtain ⟨f'', run, wellFormed⟩ := sound (e :: done) (List.cons_prefix_cons.mpr ⟨rfl, before⟩)
        rw [Fifo.run, first] at run
        exact ⟨f'', run, wellFormed⟩
      · intro sound done before
        rcases done with _ | ⟨e', done⟩
        · exact ⟨f, rfl, holds.wellFormed⟩
        · obtain ⟨rfl, later⟩ := List.cons_prefix_cons.mp before
          obtain ⟨f'', run, wellFormed⟩ := sound done later
          exact ⟨f'', by rw [Fifo.run, first]; exact run, wellFormed⟩

/-- Whatever the order of responses, completions, commands and resets, the queue of responses is well-formed all
along, frees its nodes in the order in which they came and loses none, exactly when the last node that waits is
never freed by a completion, no node waits when a command arrives or the interface is set up anew, and no node is
without its request while the interface is up. -/
theorem responseFifo_sound_iff (events : List FifoEvent) :
    Fifo.start.Sound events ↔ (Pipe.run ⟨[], true⟩ events).isSome :=
  Fifo.start_holds.sound_iff events

/-- One response and its completion: the rear is a node that was freed. -/
theorem completed_rear_freed :
    (Fifo.start.run [.write true true, .complete true]).map (fun f => (f.front, f.rear, (f.heap 0).isSome)) =
        some (none, some 0, false) ∧
      Fifo.start.run [.write true true, .complete true, .write true true] = none ∧
      ¬ Fifo.start.Sound [.write true true, .complete true] := by
  refine ⟨rfl, rfl, fun sound => ?_⟩
  have allowed := (Fifo.start_holds.sound_iff _).mp sound
  exact absurd allowed (by decide)

end UuuFastboot
