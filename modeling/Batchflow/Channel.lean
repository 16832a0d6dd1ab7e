import Batchflow.Permits

/-!
# Bounded channels

A channel has a fixed number of places.  A sender takes a place, then fills it; the receiver takes
the oldest item and the place is free again, or goes to the sender that has waited longest.  A
place may also be reserved and filled later.

Either end can finish.  Once the receiver has closed the channel no sender gets a place any more,
but places already reserved may still be filled, and the receiver is done only when none of them
is outstanding.  The receiver is also done when nobody is left who could send.

`handles` counts the senders that neither wait nor hold a reserved place: each keeps the channel
open, as do those that wait or hold one.
-/

namespace Batchflow

structure Channel (ι α : Type) where
  places : Permits ι
  /-- What was accepted and not yet received, oldest first. -/
  buffer : List α
  handles : Nat
  closed : Bool

/-- What a sender is told at once. -/
inductive Arrival where
  | accepted
  | waiting
  | refused
  deriving DecidableEq, Repr

namespace Channel

variable {ι α : Type}

def ofCapacity (capacity handles : Nat) : Channel ι α :=
  { places := .ofFree capacity, buffer := [], handles, closed := false }

def capacity (c : Channel ι α) : Nat := c.places.total + c.buffer.length

/-- Whether nothing more can be received, now or later. -/
def exhausted (c : Channel ι α) : Bool :=
  c.buffer.isEmpty && c.places.held.isEmpty &&
    (c.closed || (c.handles == 0 && c.places.line.isEmpty))

/-- The oldest item, whose place is free again. -/
def receive? (c : Channel ι α) : Option (α × Channel ι α) :=
  match c.buffer with
  | [] => none
  | x :: buffer => some (x, { c with buffer, places := c.places.add })

/-- The receiver takes no new senders; those that wait are sent away. -/
def close (c : Channel ι α) : Channel ι α :=
  { c with closed := true, places := { c.places with line := [] } }

/-- The receiver goes away with all that was accepted. -/
def discard (c : Channel ι α) : Channel ι α :=
  { c.close with
    buffer := [], places := { c.close.places with free := c.places.free + c.buffer.length } }

def addHandle (c : Channel ι α) : Channel ι α := { c with handles := c.handles + 1 }

def dropHandle (c : Channel ι α) : Channel ι α := { c with handles := c.handles - 1 }

/-- A sender arrives with an item. -/
def send (c : Channel ι α) (who : ι) (x : α) : Channel ι α × Arrival :=
  if c.closed then (c, .refused)
  else match c.places.free with
    | 0 => ({ c with places := c.places.request who }, .waiting)
    | free + 1 => ({ c with places := { c.places with free }, buffer := c.buffer ++ [x] }, .accepted)

/-- Somebody asks for a place to fill later. -/
def reserve (c : Channel ι α) (who : ι) : Channel ι α × Arrival :=
  if c.closed then (c, .refused)
  else match c.places.free with
    | 0 => ({ c with places := c.places.request who }, .waiting)
    | _ + 1 => ({ c with places := c.places.request who }, .accepted)

@[simp] theorem capacity_close (c : Channel ι α) : c.close.capacity = c.capacity := rfl

theorem capacity_receive {c c' : Channel ι α} {x : α} (h : c.receive? = some (x, c')) :
    c'.capacity = c.capacity := by
  unfold receive? at h
  split at h
  · simp at h
  · rename_i hb
    simp only [Option.some.injEq, Prod.mk.injEq] at h
    obtain ⟨-, rfl⟩ := h
    simp only [capacity, hb, Permits.total_add, List.length_cons]
    omega

theorem capacity_send (c : Channel ι α) (who : ι) (x : α) :
    (c.send who x).1.capacity = c.capacity := by
  unfold send
  split
  · rfl
  · split
    · simp [capacity]
    · simp only [capacity, Permits.total, List.length_append, List.length_singleton]
      omega

variable [DecidableEq ι]

/-- The holder of a place fills it. -/
def fill (c : Channel ι α) (who : ι) (x : α) : Channel ι α :=
  { c with places := c.places.spend who, buffer := c.buffer ++ [x] }

/-- A place held goes back, or who waits gives up. -/
def leave (c : Channel ι α) (who : ι) : Channel ι α := { c with places := c.places.leave who }

/-- What a waiting caller finds when it looks again: nothing yet, its place, or a closed channel.
A place that was handed to it just before the channel closed is lost to it. -/
def resume? (c : Channel ι α) (who : ι) : Option Arrival :=
  if c.closed then some .refused
  else if c.places.holds who then some .accepted
  else none

theorem capacity_fill {c : Channel ι α} {who : ι} (h : who ∈ c.places.held) (x : α) :
    (c.fill who x).capacity = c.capacity := by
  have := Permits.total_spend h
  simp only [fill, capacity, List.length_append, List.length_singleton]
  omega

theorem capacity_leave (c : Channel ι α) (who : ι) : (c.leave who).capacity = c.capacity := by
  simp only [leave, capacity, Permits.total_leave]

end Channel

end Batchflow
