import ImcGem5.Lib.Linked
import Mathlib.Data.Prod.Lex

/-! The event queue: a list of bins linked by nextBin, each bin a stack of events linked
by nextInBin. Only the top of a bin has a nextBin that is kept up to date.

Events live in a heap. What an event does when it is processed is not part of the queue:
whatever it schedules comes as further operations. -/

namespace ImcGem5.Sim
open Lib

structure Event where
  nextBin : Option Nat := none
  nextInBin : Option Nat := none
  when : Nat := 0
  priority : Int
  scheduled : Bool := false
  squashed : Bool := false
  /-- `queue == this`, for the one queue there is. -/
  queue : Bool := false
  deriving DecidableEq, Repr

namespace Event

def lt (l r : Event) : Bool := l.when < r.when || (l.when == r.when && l.priority < r.priority)

def le (l r : Event) : Bool := l.when < r.when || (l.when == r.when && l.priority ≤ r.priority)

def eq (l r : Event) : Bool := l.when == r.when && l.priority == r.priority

def key (event : Event) : Nat ×ₗ Int := toLex (event.when, event.priority)

/-- The event is the new top either way, so it is the pointer to go on with. -/
def insertBefore (events : Heap Event) (event : Nat) (curr : Option Nat) : Except Fault (Heap Event × Option Nat) := do
  match curr with
  | none =>
    let events ← events.modify event fun object => { object with nextBin := none, nextInBin := none }
    return (events, some event)
  | some top =>
    let object ← events.read event
    let topObject ← events.read top
    if object.lt topObject then
      let events ← events.modify event fun object => { object with nextBin := some top, nextInBin := none }
      return (events, some event)
    else
      let events ← events.modify event fun object => { object with nextBin := topObject.nextBin, nextInBin := some top }
      return (events, some event)

def removeBelow (event : Nat) : Nat → Heap Event → Nat → Option Nat → Except Fault (Heap Event)
  | 0, _, _, _ => .error .stuck
  | _ + 1, _, _, none => .error (.panic "event not found!")
  | turns + 1, events, curr, some next => do
    let object ← events.read next
    if event = next then events.modify curr fun currObject => { currObject with nextInBin := object.nextInBin }
    else removeBelow event turns events next object.nextInBin

/-- The top of the bin without the event, or the next bin if there is nothing left. -/
def removeItem (events : Heap Event) (event top : Nat) : Except Fault (Heap Event × Option Nat) := do
  let topObject ← events.read top
  if event = top then
    match topObject.nextInBin with
    | none => return (events, topObject.nextBin)
    | some next =>
      let events ← events.modify next fun object => { object with nextBin := topObject.nextBin }
      return (events, some next)
  else
    let events ← removeBelow event (events.next + 1) events top topObject.nextInBin
    return (events, some top)

end Event

structure EventQueue where
  events : Heap Event
  head : Option Nat := none
  curTick : Nat := 0

namespace EventQueue

def empty : EventQueue := { events := { cell := fun _ => none, next := 0 } }

/-- The loop of insert and remove: the last bin before an event's place, and the first
one that is not before it. -/
def findBin (events : Heap Event) (event : Event) : Nat → Nat → Option Nat → Except Fault (Nat × Option Nat)
  | 0, _, _ => .error .stuck
  | _ + 1, prev, none => .ok (prev, none)
  | turns + 1, prev, some curr => do
    let object ← events.read curr
    if object.lt event then findBin events event turns curr object.nextBin
    else return (prev, some curr)

def insert (queue : EventQueue) (event : Nat) : Except Fault EventQueue := do
  let object ← queue.events.read event
  match queue.head with
  | none =>
    let (events, head) ← Event.insertBefore queue.events event queue.head
    return { queue with events, head }
  | some top =>
    let topObject ← queue.events.read top
    if object.le topObject then
      let (events, head) ← Event.insertBefore queue.events event queue.head
      return { queue with events, head }
    else
      let (prev, curr) ← findBin queue.events object (queue.events.next + 1) top topObject.nextBin
      let (events, nextBin) ← Event.insertBefore queue.events event curr
      let events ← events.modify prev fun prevObject => { prevObject with nextBin }
      return { queue with events }

def remove (queue : EventQueue) (event : Nat) : Except Fault EventQueue := do
  match queue.head with
  | none => .error (.panic "event not found!")
  | some top =>
    let object ← queue.events.read event
    Fault.ensure object.queue "event->queue == this"
    let topObject ← queue.events.read top
    if topObject.eq object then
      let (events, head) ← Event.removeItem queue.events event top
      return { queue with events, head }
    else
      let (prev, curr) ← findBin queue.events object (queue.events.next + 1) top topObject.nextBin
      match curr with
      | none => .error (.panic "event not found!")
      | some curr =>
        let currObject ← queue.events.read curr
        if !currObject.eq object then .error (.panic "event not found!")
        else
          let (events, nextBin) ← Event.removeItem queue.events event curr
          let events ← events.modify prev fun prevObject => { prevObject with nextBin }
          return { queue with events }

def pop (events : Heap Event) (head : Event) : Except Fault (Heap Event × Option Nat) :=
  match head.nextInBin with
  | some next => do
    let events ← events.modify next fun nextObject => { nextObject with nextBin := head.nextBin }
    return (events, some next)
  | none => return (events, head.nextBin)

def serviceOne (queue : EventQueue) : Except Fault (EventQueue × Nat) := do
  match queue.head with
  | none => .error .wild
  | some event =>
    let object ← queue.events.read event
    let events ← queue.events.modify event fun object => { object with scheduled := false }
    let (events, head) ← pop events object
    if object.squashed then
      let events ← events.modify event fun object => { object with squashed := false }
      return ({ queue with events, head }, event)
    else return ({ queue with events, head, curTick := object.when }, event)

end EventQueue

/-- Events are made, deleted and squashed by their owners. Those that schedule and
deschedule an event set its time and flags around insert and remove. -/
inductive QueueOp where
  | create (priority : Int)
  | insert (event when : Nat)
  | remove (event : Nat)
  | squash (event : Nat)
  | serviceOne
  | delete (event : Nat)
  deriving DecidableEq, Repr

inductive QueueLabel where
  | inserted (event : Nat) (key : Nat ×ₗ Int)
  | removed (event : Nat)
  | serviced (event : Nat)
  deriving DecidableEq

namespace EventQueue

def scheduled (queue : EventQueue) (event : Nat) : Option Bool := queue.events.field Event.scheduled event

def step : Step EventQueue QueueOp QueueLabel Fault
  | queue, .create priority => return ({ queue with events := (queue.events.alloc { priority }).1 }, [])
  | queue, .insert event when => do
    let object ← queue.events.read event
    let events ← queue.events.modify event fun object => { object with when, queue := true }
    let queue ← { queue with events }.insert event
    let events ← queue.events.modify event fun object => { object with scheduled := true }
    return ({ queue with events }, [.inserted event (toLex (when, object.priority))])
  | queue, .remove event => do
    let queue ← queue.remove event
    let events ← queue.events.modify event fun object => { object with squashed := false, scheduled := false }
    return ({ queue with events }, [.removed event])
  | queue, .squash event => do
    let events ← queue.events.modify event fun object => { object with squashed := true }
    return ({ queue with events }, [])
  | queue, .serviceOne => do
    let (queue, event) ← queue.serviceOne
    return (queue, [.serviced event])
  | queue, .delete event => return ({ queue with events := queue.events.free event }, [])

/-- Only events that are not in the queue are inserted or deleted, only those in it are
removed, and there is something to service. -/
def Allowed (queue : EventQueue) : QueueOp → Prop
  | .create _ => True
  | .insert event _ => queue.scheduled event = some false
  | .remove event => queue.scheduled event = some true
  | .squash event => (queue.scheduled event).isSome
  | .serviceOne => queue.head.isSome
  | .delete event => queue.scheduled event = some false

instance (queue : EventQueue) : DecidablePred queue.Allowed
  | .create _ => inferInstanceAs (Decidable True)
  | .insert event _ => inferInstanceAs (Decidable (queue.scheduled event = some false))
  | .remove event => inferInstanceAs (Decidable (queue.scheduled event = some true))
  | .squash event => inferInstanceAs (Decidable ((queue.scheduled event).isSome = true))
  | .serviceOne => inferInstanceAs (Decidable (queue.head.isSome = true))
  | .delete event => inferInstanceAs (Decidable (queue.scheduled event = some false))

end EventQueue

end ImcGem5.Sim
