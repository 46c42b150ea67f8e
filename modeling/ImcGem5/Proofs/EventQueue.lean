import ImcGem5.Sim.EventQueue

/-! The event queue is a priority queue. Its bins are read off the heap as a list, so an
operation is first a change of that list, and then a fact about the few links it wrote. -/

namespace ImcGem5.Sim.Proofs.EventQueue
open Lib List Event Heap

theorem lt_iff (l r : Event) : l.lt r = true ↔ l.key < r.key := by
  simp only [lt, Event.key, Prod.Lex.toLex_lt_toLex, Bool.or_eq_true, Bool.and_eq_true, decide_eq_true_eq, beq_iff_eq]

theorem le_iff (l r : Event) : l.le r = true ↔ l.key ≤ r.key := by
  simp only [Event.le, Event.key, Prod.Lex.toLex_le_toLex, Bool.or_eq_true, Bool.and_eq_true, decide_eq_true_eq, beq_iff_eq]

theorem eq_iff (l r : Event) : l.eq r = true ↔ l.key = r.key := by
  simp only [Event.eq, Event.key, EmbeddingLike.apply_eq_iff_eq, Prod.mk.injEq, Bool.and_eq_true, beq_iff_eq]

structure Bin where
  key : Nat ×ₗ Int
  top : Nat
  below : List Nat

namespace Bin

def events (bin : Bin) : List Nat := bin.top :: bin.below

def ofList (key : Nat ×ₗ Int) : List Nat → Option Bin
  | [] => none
  | top :: below => some ⟨key, top, below⟩

def without (bin : Bin) (event : Nat) : Option Bin := ofList bin.key (bin.events.filter (· ≠ event))

end Bin

/-- Bins by increasing key, each the top of a pile of events. -/
structure Binned (events : Heap Event) (head : Option Nat) (bins : List Bin) : Prop where
  chain : events.Linked Event.nextBin (bins.map Bin.top) head
  increasing : bins.Pairwise fun early late => early.key < late.key
  piles : ∀ bin ∈ bins, events.Linked Event.nextInBin bin.events (some bin.top)
  keys : ∀ bin ∈ bins, ∀ event ∈ bin.events, events.field Event.key event = some bin.key
  once : (bins.flatMap Bin.events).Nodup

variable {bins before later : List Bin} {bin : Bin} {event : Nat} {object : Event} {key : Nat ×ₗ Int} {queue : EventQueue}
  {pending : Pending}

theorem mem_events (member : bin ∈ bins) (inside : event ∈ bin.events) :
    event ∈ bins.flatMap Bin.events := mem_flatMap.mpr ⟨bin, member, inside⟩

theorem top_mem (bin : Bin) : bin.top ∈ bin.events := mem_cons_self

namespace Binned
variable {events after : Heap Event} {head : Option Nat} {bins : List Bin}

section

variable (binned : Binned events head bins)
include binned

theorem held {event : Nat} (inside : event ∈ bins.flatMap Bin.events) :
    ∃ bin ∈ bins, event ∈ bin.events ∧ ∃ object, events.cell event = some object ∧ object.key = bin.key := by
  obtain ⟨bin, member, inside⟩ := mem_flatMap.mp inside
  exact ⟨bin, member, inside, field_eq_some (binned.keys bin member event inside)⟩

theorem frame (nextBin : ∀ event ∈ bins.map Bin.top, after.field Event.nextBin event = events.field Event.nextBin event)
    (nextInBin : ∀ event ∈ bins.flatMap Bin.events, after.field Event.nextInBin event = events.field Event.nextInBin event)
    (key : ∀ event ∈ bins.flatMap Bin.events, after.field Event.key event = events.field Event.key event) :
    Binned after head bins := by
  refine ⟨binned.chain.frame nextBin, binned.increasing, ?_, ?_, binned.once⟩
  · intro bin member
    exact (binned.piles bin member).frame fun event inside => nextInBin event (mem_events member inside)
  · intro bin member event inside
    rw [key event (mem_events member inside)]
    exact binned.keys bin member event inside

theorem write {event : Nat} {object object' : Event} (held : events.cell event = some object)
    (nextBin : object'.nextBin = object.nextBin) (nextInBin : object'.nextInBin = object.nextInBin) (key : object'.key = object.key) :
    Binned (events.write event object') head bins :=
  binned.frame (fun other _ => field_write_of_same held nextBin other) (fun other _ => field_write_of_same held nextInBin other)
    fun other _ => field_write_of_same held key other

theorem frame_cells (same : ∀ event ∈ bins.flatMap Bin.events, after.cell event = events.cell event) : Binned after head bins := by
  have fields : ∀ {β : Type} (get : Event → β), ∀ event ∈ bins.flatMap Bin.events, after.field get event = events.field get event := by
    intro β get event inside
    rw [field, field, same event inside]
  refine binned.frame ?_ (fields _) (fields _)
  intro event isTop
  obtain ⟨bin, member, rfl⟩ := mem_map.mp isTop
  exact fields _ _ (mem_events member (top_mem bin))

end

theorem rest {before later : List Bin} {last : Bin} (binned : Binned events head (before ++ last :: later)) :
    ∃ onward, events.field Event.nextBin last.top = some onward ∧ Binned events onward later := by
  have chain := binned.chain
  rw [map_append, map_cons] at chain
  obtain ⟨onward, points, chain⟩ := chain.rest
  have inside : ∀ bin ∈ later, bin ∈ before ++ last :: later := fun bin member =>
    mem_append_right _ (mem_cons_of_mem _ member)
  have once := binned.once
  rw [flatMap_append, flatMap_cons] at once
  refine ⟨onward, points, chain, ?_, fun bin member => binned.piles bin (inside bin member),
    fun bin member => binned.keys bin (inside bin member), (nodup_append.mp (nodup_append.mp once).2.1).2.1⟩
  exact (pairwise_cons.mp (pairwise_append.mp binned.increasing).2.1).2

theorem link {before later fresh : List Bin} {last : Bin} {onward : Option Nat} {object : Event}
    (binned : Binned events head (before ++ last :: later)) (binned' : Binned after onward fresh)
    (same : ∀ event ∈ (before ++ [last]).flatMap Bin.events, after.cell event = events.cell event)
    (place : events.cell last.top = some object) (later' : ∀ bin ∈ fresh, last.key < bin.key)
    (apart : ∀ event ∈ (before ++ [last]).flatMap Bin.events, event ∉ fresh.flatMap Bin.events) :
    Binned (after.write last.top { object with nextBin := onward }) head (before ++ last :: fresh) := by
  have topInside : last.top ∈ (before ++ [last]).flatMap Bin.events :=
    mem_events (mem_append_cons_self) (top_mem last)
  have outside := apart last.top topInside
  have placed : after.cell last.top = some object := (same _ topInside).trans place
  -- what the write leaves alone: every event's stack and key, and the chain outside of the top
  have nextInBin : ∀ event, (after.write last.top { object with nextBin := onward }).field Event.nextInBin event = after.field Event.nextInBin event :=
    field_write_of_same placed rfl
  have key : ∀ event, (after.write last.top { object with nextBin := onward }).field Event.key event = after.field Event.key event :=
    field_write_of_same placed rfl
  have nextBin : ∀ event, event ≠ last.top →
      (after.write last.top { object with nextBin := onward }).field Event.nextBin event = after.field Event.nextBin event := by
    intro event different
    rw [field_write, if_neg different]
  have kept : ∀ {β : Type} (get : Event → β), ∀ event ∈ (before ++ [last]).flatMap Bin.events, after.field get event = events.field get event := by
    intro β get event inside
    rw [field, field, same event inside]
  have once := binned.once
  rw [flatMap_append, flatMap_cons] at once
  have fresh' : Binned (after.write last.top { object with nextBin := onward }) onward fresh := by
    refine binned'.frame ?_ (fun event _ => nextInBin event) fun event _ => key event
    intro event isTop
    obtain ⟨bin, member, rfl⟩ := mem_map.mp isTop
    exact nextBin bin.top fun here => outside (here ▸ mem_events member (top_mem bin))
  have stays : ∀ bin ∈ before ++ last :: fresh, bin ∈ before ++ [last] ∨ bin ∈ fresh := by
    intro bin member
    simp only [mem_append, mem_cons, not_mem_nil, or_false] at member ⊢
    tauto
  have stayed : ∀ bin ∈ before ++ [last], bin ∈ before ++ last :: later := by
    intro bin member
    simp only [mem_append, mem_cons, not_mem_nil, or_false] at member ⊢
    tauto
  refine ⟨?_, ?_, ?_, ?_, ?_⟩
  · have chain := binned.chain
    rw [map_append, map_cons] at chain ⊢
    refine chain.splice ?_ ?_ fresh'.chain
    · intro event isTop
      obtain ⟨bin, member, rfl⟩ := mem_map.mp isTop
      have inside := mem_events member (top_mem bin)
      have different : bin.top ≠ last.top := by
        intro here
        exact (nodup_append.mp once).2.2 _ inside _ (mem_append_left _ (top_mem last)) here
      rw [nextBin _ different, kept _ _ (mem_events (mem_append_left _ member) (top_mem bin))]
    · rw [field_write, if_pos rfl]
  · have order := binned.increasing
    rw [pairwise_append, pairwise_cons] at order ⊢
    obtain ⟨early, ⟨_, _⟩, across⟩ := order
    refine ⟨early, ⟨later', binned'.increasing⟩, ?_⟩
    intro bin member other member'
    have less := across bin member last mem_cons_self
    obtain rfl | member' := mem_cons.mp member'
    · exact less
    · exact less.trans (later' other member')
  · intro bin member
    obtain old | new := stays bin member
    · refine (binned.piles bin (stayed bin old)).frame fun event inside => ?_
      rw [nextInBin, kept _ _ (mem_events old inside)]
    · exact fresh'.piles bin new
  · intro bin member event inside
    obtain old | new := stays bin member
    · rw [key, kept _ _ (mem_events old inside)]
      exact binned.keys bin (stayed bin old) event inside
    · exact fresh'.keys bin new event inside
  · have split : (before ++ last :: fresh).flatMap Bin.events = (before ++ [last]).flatMap Bin.events ++ fresh.flatMap Bin.events := by
      rw [← flatMap_append, append_assoc, singleton_append]
    rw [split]
    refine nodup_append.mpr ⟨?_, binned'.once, fun event inside other inside' same => apart event inside (same ▸ inside')⟩
    rw [flatMap_append, flatMap_singleton]
    rw [← append_assoc] at once
    exact (nodup_append.mp once).1

section

variable (binned : Binned events head bins)
include binned

theorem split (key : Nat ×ₗ Int) :
    ∃ before later, bins = before ++ later ∧ (∀ bin ∈ before, bin.key < key) ∧ ∀ bin ∈ later, key ≤ bin.key := by
  have increasing := binned.increasing
  clear binned
  induction bins with
  | nil => exact ⟨[], [], rfl, nofun, nofun⟩
  | cons first bins ih =>
    obtain ⟨least, increasing⟩ := pairwise_cons.mp increasing
    by_cases less : first.key < key
    · obtain ⟨before, later, rfl, early, late⟩ := ih increasing
      refine ⟨first :: before, later, rfl, ?_, late⟩
      intro bin member
      obtain rfl | member := mem_cons.mp member
      · exact less
      · exact early bin member
    · refine ⟨[], first :: bins, rfl, nofun, ?_⟩
      intro bin member
      obtain rfl | member := mem_cons.mp member
      · exact not_lt.mp less
      · exact (not_lt.mp less).trans (least bin member).le

theorem length_le (bounded : events.Bounded) : (bins.flatMap Bin.events).length ≤ events.next := by
  apply bounded.length_le binned.once
  intro event inside
  obtain ⟨_, _, _, object, held, _⟩ := binned.held inside
  exact ⟨object, held⟩

theorem count_le (bounded : events.Bounded) : bins.length ≤ events.next := by
  refine Nat.le_trans ?_ (binned.length_le bounded)
  clear binned
  induction bins with
  | nil => exact Nat.le_refl _
  | cons =>
    rw [flatMap_cons, length_append, length_cons, Bin.events, length_cons]
    omega

end

end Binned

theorem findBin_ok {events : Heap Event} {turns : Nat} (first : Bin) {curr : Option Nat}
    (binned : Binned events curr (before ++ later)) (early : ∀ bin ∈ before, bin.key < object.key)
    (late : ∀ bin ∈ later, object.key ≤ bin.key) (enough : before.length < turns) :
    ∃ passed last, first :: before = passed ++ [last] ∧
      EventQueue.findBin events object turns first.top curr = .ok (last.top, (later.map Bin.top).head?) := by
  induction before generalizing first turns curr with
  | nil =>
    obtain ⟨turns, rfl⟩ := Nat.exists_eq_add_of_lt enough
    refine ⟨[], first, rfl, ?_⟩
    rw [binned.chain.start, nil_append]
    cases later with
    | nil => rfl
    | cons next =>
      obtain ⟨nextObject, held, same⟩ := field_eq_some (binned.keys next mem_cons_self next.top (top_mem next))
      have stops : ¬nextObject.lt object = true := by
        rw [lt_iff, same]
        exact not_lt.mpr (late next mem_cons_self)
      simp only [map_cons, head?_cons, EventQueue.findBin]
      rw [read_of_cell held, ok_bind, if_neg stops]
      rfl
  | cons next before ih =>
    obtain ⟨turns, rfl⟩ : ∃ fewer, turns = fewer + 1 := ⟨turns - 1, by omega⟩
    obtain ⟨nextObject, held, same⟩ := field_eq_some (binned.keys next mem_cons_self next.top (top_mem next))
    obtain ⟨_, points, rest⟩ := @Binned.rest events curr [] (before ++ later) next binned
    rw [field_of_cell held, Option.some.injEq] at points
    subst points
    have goesOn : nextObject.lt object = true := by
      rw [lt_iff, same]
      exact early next mem_cons_self
    obtain ⟨passed, last, whole, found⟩ := ih next rest (fun bin member => early bin (mem_cons_of_mem _ member))
      (Nat.lt_of_succ_lt_succ enough)
    refine ⟨first :: passed, last, by rw [whole]; rfl, ?_⟩
    rw [binned.chain.start, cons_append, map_cons, head?_cons, EventQueue.findBin, read_of_cell held, ok_bind, if_pos goesOn]
    exact found

def place (key : Nat ×ₗ Int) (event : Nat) : List Bin → List Bin
  | [] => [⟨key, event, []⟩]
  | first :: later => if key < first.key then ⟨key, event, []⟩ :: first :: later else ⟨key, event, first.events⟩ :: later

theorem insertBefore_ok {events : Heap Event} {curr : Option Nat}
    (binned : Binned events curr later) (held : events.cell event = some object) (late : ∀ bin ∈ later, object.key ≤ bin.key)
    (absent : event ∉ later.flatMap Bin.events) :
    ∃ nextBin nextInBin, insertBefore events event curr =
        .ok (events.write event { object with nextBin, nextInBin }, some event) ∧
      Binned (events.write event { object with nextBin, nextInBin }) (some event) (place object.key event later) := by
  have kept : ∀ nextBin nextInBin, Binned (events.write event { object with nextBin, nextInBin }) curr later := by
    intro nextBin nextInBin
    apply binned.frame_cells
    intro other inside
    have different : other ≠ event := fun same => absent (same ▸ inside)
    rw [write_cell, if_neg different]
  -- a bin of its own, before all others
  have alone : (∀ bin ∈ later, object.key < bin.key) →
      Binned (events.write event { object with nextBin := curr, nextInBin := none }) (some event) (⟨object.key, event, []⟩ :: later) := by
    intro least
    have old := kept curr none
    refine ⟨⟨rfl, curr, by rw [field_write, if_pos rfl], old.chain⟩, pairwise_cons.mpr ⟨least, old.increasing⟩, ?_, ?_, ?_⟩
    · intro bin member
      obtain rfl | member := mem_cons.mp member
      · exact ⟨rfl, none, by rw [field_write, if_pos rfl], rfl⟩
      · exact old.piles bin member
    · intro bin member other inside
      obtain rfl | member := mem_cons.mp member
      · rw [mem_singleton.mp inside, field_write, if_pos rfl]
        rfl
      · exact old.keys bin member other inside
    · exact nodup_cons.mpr ⟨absent, old.once⟩
  cases later with
  | nil =>
    have nowhere := binned.chain.start
    subst nowhere
    refine ⟨none, none, ?_, alone nofun⟩
    simp only [insertBefore, map_nil, head?_nil]
    rw [modify_of_cell held]
    rfl
  | cons first later =>
    have start := binned.chain.start
    subst start
    obtain ⟨topObject, heldTop, same⟩ := field_eq_some (binned.keys first mem_cons_self first.top (top_mem first))
    unfold insertBefore place
    simp only [map_cons, head?_cons] at alone ⊢
    rw [read_of_cell held, read_of_cell heldTop, ok_bind, ok_bind]
    by_cases less : object.key < first.key
    · refine ⟨some first.top, none, ?_, ?_⟩
      · rw [if_pos ((lt_iff object topObject).mpr (same ▸ less)), modify_of_cell held]
        rfl
      · rw [if_pos less]
        apply alone
        intro bin member
        obtain rfl | member := mem_cons.mp member
        · exact less
        · exact less.trans ((pairwise_cons.mp binned.increasing).1 bin member)
    · have equal : object.key = first.key := le_antisymm (late first mem_cons_self) (not_lt.mp less)
      have notLess : ¬object.lt topObject = true := by
        rw [lt_iff, same]
        exact less
      refine ⟨topObject.nextBin, some first.top, ?_, ?_⟩
      · rw [if_neg notLess, modify_of_cell held]
        rfl
      · rw [if_neg less]
        have old := kept topObject.nextBin (some first.top)
        obtain ⟨_, points, rest⟩ := @Binned.rest _ _ [] later first old
        have topApart : first.top ≠ event := fun here => absent (here ▸ mem_events mem_cons_self (top_mem first))
        rw [field_write, if_neg topApart, field_of_cell heldTop, Option.some.injEq] at points
        subst points
        refine ⟨⟨rfl, _, by rw [field_write, if_pos rfl], rest.chain⟩, ?_, ?_, ?_, nodup_cons.mpr ⟨absent, binned.once⟩⟩
        · refine pairwise_cons.mpr ⟨?_, rest.increasing⟩
          intro bin member
          rw [equal]
          exact (pairwise_cons.mp binned.increasing).1 bin member
        · intro bin member
          obtain rfl | member := mem_cons.mp member
          · exact ⟨rfl, _, by rw [field_write, if_pos rfl], old.piles first mem_cons_self⟩
          · exact rest.piles bin member
        · intro bin member other inside
          obtain rfl | member := mem_cons.mp member
          · obtain rfl | inside := mem_cons.mp inside
            · rw [field_write, if_pos rfl]
              rfl
            · rw [old.keys first mem_cons_self other inside, equal]
          · exact rest.keys bin member other inside

def unlinked (event : Event) : Event := { event with nextBin := none, nextInBin := none }

structure Relinked (events after : Heap Event) (touched : List Nat) : Prop where
  outside : ∀ other, other ∉ touched → after.cell other = events.cell other
  rest : ∀ other, after.field unlinked other = events.field unlinked other
  next : after.next = events.next

theorem Relinked.refl (events : Heap Event) (touched : List Nat) : Relinked events events touched := ⟨fun _ _ => rfl, fun _ => rfl, rfl⟩

theorem relinked_write {events : Heap Event} {address : Nat} {touched : List Nat}
    (held : events.cell address = some object) (inside : address ∈ touched) (nextBin nextInBin : Option Nat) :
    Relinked events (events.write address { object with nextBin, nextInBin }) touched := by
  refine ⟨?_, ?_, rfl⟩
  · intro other out
    have different : other ≠ address := fun same => out (same ▸ inside)
    rw [write_cell, if_neg different]
  · exact field_write_of_same held rfl

theorem Relinked.bounded {events after : Heap Event} {touched : List Nat} (relinked : Relinked events after touched)
    (bounded : events.Bounded) : after.Bounded := by
  intro address object held
  rw [relinked.next]
  have same := relinked.rest address
  rw [field_of_cell held] at same
  obtain ⟨old, found, _⟩ := field_eq_some same.symm
  exact bounded address old found

theorem Relinked.trans {events between after : Heap Event} {early late : List Nat} (first : Relinked events between early)
    (second : Relinked between after late) : Relinked events after (early ++ late) := by
  refine ⟨?_, fun other => (second.rest other).trans (first.rest other), second.next.trans first.next⟩
  intro other out
  rw [mem_append, not_or] at out
  exact (second.outside other out.2).trans (first.outside other out.1)

theorem Binned.refill {events after : Heap Event} {bin bin' : Bin} {later : List Bin} {onward : Option Nat}
    (binned : Binned events (some bin.top) (bin :: later)) (relinked : Relinked events after bin.events)
    (fewer : bin'.events.Sublist bin.events) (same : bin'.key = bin.key) (points : events.field Event.nextBin bin.top = some onward)
    (points' : after.field Event.nextBin bin'.top = some onward) (pile : after.Linked Event.nextInBin bin'.events (some bin'.top)) :
    Binned after (some bin'.top) (bin' :: later) := by
  obtain ⟨_, leads, rest⟩ := @Binned.rest _ _ [] later bin binned
  rw [points, Option.some.injEq] at leads
  subst leads
  have once := binned.once
  obtain ⟨_, _, apart⟩ := nodup_append.mp once
  have rest' : Binned after onward later := by
    apply rest.frame_cells
    intro event inside
    exact relinked.outside event fun here => apart event here event inside rfl
  refine ⟨⟨rfl, onward, points', rest'.chain⟩, ?_, ?_, ?_, ?_⟩
  · refine pairwise_cons.mpr ⟨?_, rest.increasing⟩
    rw [same]
    exact (pairwise_cons.mp binned.increasing).1
  · intro other member
    obtain rfl | member := mem_cons.mp member
    · exact pile
    · exact rest'.piles other member
  · intro other member event inside
    obtain rfl | member := mem_cons.mp member
    · rw [field_congr (relinked.rest event) (fun _ => rfl), same]
      exact binned.keys bin mem_cons_self event (fewer.subset inside)
    · exact rest'.keys other member event inside
  · rw [flatMap_cons]
    exact once.sublist (fewer.append_right _)

theorem removeBelow_ok {events : Heap Event} {curr turns : Nat} {above under : List Nat}
    (linked : events.Linked Event.nextInBin (curr :: (above ++ event :: under)) (some curr))
    (once : (curr :: (above ++ event :: under)).Nodup) (enough : above.length < turns) :
    ∃ prev object onward, prev ∈ curr :: above ∧ events.cell prev = some object ∧
      removeBelow event turns events curr (above ++ event :: under).head? =
        .ok (events.write prev { object with nextInBin := onward }) ∧
      (events.write prev { object with nextInBin := onward }).Linked Event.nextInBin (curr :: (above ++ under)) (some curr) := by
  induction above generalizing curr turns with
  | nil =>
    obtain ⟨turns, rfl⟩ := Nat.exists_eq_add_of_lt enough
    obtain ⟨_, next, points, linked⟩ := linked
    obtain ⟨currObject, heldCurr, _⟩ := field_eq_some points
    obtain ⟨different, _⟩ := nodup_cons.mp once
    obtain ⟨_, onward, points', linked'⟩ := linked
    obtain ⟨object, held, leads'⟩ := field_eq_some points'
    subst leads'
    refine ⟨curr, currObject, object.nextInBin, mem_cons_self, heldCurr, ?_, rfl, object.nextInBin, ?_, ?_⟩
    · rw [nil_append, head?_cons, removeBelow, read_of_cell held, ok_bind, if_pos rfl, modify_of_cell heldCurr]
    · rw [field_write, if_pos rfl]
    · refine linked'.frame fun other inside => ?_
      have apart : other ≠ curr := fun same => different (same ▸ mem_cons_of_mem _ inside)
      rw [field_write, if_neg apart]
  | cons first _ ih =>
    obtain ⟨turns, rfl⟩ : ∃ fewer, turns = fewer + 1 := ⟨turns - 1, by omega⟩
    obtain ⟨_, next, points, linked⟩ := linked
    have here := linked.1
    subst here
    obtain ⟨different, once'⟩ := nodup_cons.mp once
    obtain ⟨different', _⟩ := nodup_cons.mp once'
    obtain ⟨_, onward, points', linked'⟩ := linked
    obtain ⟨object, held, leads'⟩ := field_eq_some points'
    have goesOn : event ≠ first := fun same => different' (same ▸ mem_append_cons_self)
    obtain ⟨prev, prevObject, onward', member, heldPrev, ran, linked''⟩ := ih ⟨rfl, onward, points', linked'⟩ once'
      (Nat.lt_of_succ_lt_succ enough)
    refine ⟨prev, prevObject, onward', mem_cons_of_mem _ member, heldPrev, ?_, rfl, some first, ?_, linked''⟩
    · simp only [cons_append, head?_cons]
      rw [removeBelow, read_of_cell held, ok_bind, if_neg goesOn, leads', linked'.start]
      exact ran
    · have apart : curr ≠ prev := by
        intro same
        subst same
        obtain here | there := mem_cons.mp member
        · exact different (here ▸ mem_cons_self)
        · exact different (mem_cons_of_mem _ (mem_append_left _ there))
      rw [field_write, if_neg apart]
      exact points

theorem without_of_top (once : bin.events.Nodup) : bin.without bin.top = Bin.ofList bin.key bin.below := by
  obtain ⟨absent, _⟩ := nodup_cons.mp once
  have stays : bin.below.filter (· ≠ bin.top) = bin.below := by
    apply filter_eq_self.mpr
    intro event inside
    exact decide_eq_true fun same => absent (same ▸ inside)
  rw [Bin.without, Bin.events, filter_cons_of_neg (by simp), stays]

theorem without_of_below {above under : List Nat} (whole : bin.below = above ++ event :: under)
    (once : bin.events.Nodup) : bin.without event = some ⟨bin.key, bin.top, above ++ under⟩ := by
  rw [Bin.events, whole] at once
  obtain ⟨absent, once⟩ := nodup_cons.mp once
  obtain ⟨_, once', apart⟩ := nodup_append.mp once
  obtain ⟨absent', _⟩ := nodup_cons.mp once'
  have notTop : bin.top ≠ event := fun same => absent (same ▸ mem_append_cons_self)
  have kept : above.filter (· ≠ event) = above := by
    apply filter_eq_self.mpr
    intro other inside
    exact decide_eq_true fun same => apart other inside event mem_cons_self same
  have kept' : under.filter (· ≠ event) = under := by
    apply filter_eq_self.mpr
    intro other inside
    exact decide_eq_true fun same => absent' (same ▸ inside)
  rw [Bin.without, Bin.events, whole, filter_cons_of_pos (by simpa using notTop), filter_append,
    filter_cons_of_neg (by simp), kept, kept']
  rfl

theorem removeItem_ok {events : Heap Event}
    (binned : Binned events (some bin.top) (bin :: later)) (bounded : events.Bounded) (inside : event ∈ bin.events) :
    ∃ after onward, removeItem events event bin.top = .ok (after, onward) ∧
      Binned after onward ((bin.without event).toList ++ later) ∧ Relinked events after bin.events := by
  obtain ⟨onward, points, rest⟩ := @Binned.rest _ _ [] later bin binned
  obtain ⟨topObject, heldTop, leads⟩ := field_eq_some points
  have pile := binned.piles bin mem_cons_self
  have once : bin.events.Nodup := by
    have once := binned.once
    exact (nodup_append.mp once).1
  unfold removeItem
  rw [read_of_cell heldTop, ok_bind]
  obtain ⟨_, next, pointsIn, pileBelow⟩ := pile
  rw [field_of_cell heldTop, Option.some.injEq] at pointsIn
  by_cases isTop : event = bin.top
  · subst isTop
    rw [if_pos rfl, without_of_top once, pointsIn, leads]
    cases below : bin.below with
    | nil =>
      rw [below] at pileBelow
      rw [pileBelow.start]
      exact ⟨events, onward, rfl, rest, Relinked.refl events _⟩
    | cons second under =>
      rw [below] at pileBelow
      rw [pileBelow.start]
      obtain ⟨object, held⟩ := pileBelow.held mem_cons_self
      have member : second ∈ bin.events := by
        rw [Bin.events, below]
        exact mem_cons_of_mem _ mem_cons_self
      have relinked := relinked_write held member onward object.nextInBin
      refine ⟨_, some second, ?_, ?_, relinked⟩
      · simp only [head?_cons]
        rw [modify_of_cell held]
        rfl
      · refine @Binned.refill events _ bin ⟨bin.key, second, under⟩ later onward binned relinked ?_ rfl points ?_ ?_
        · rw [Bin.events, Bin.events, below]
          exact sublist_cons_self _ _
        · rw [field_write, if_pos rfl]
        · rw [pileBelow.start] at pileBelow
          exact pileBelow.frame fun other _ => field_write_of_same held (by rfl) other
  · rw [if_neg isTop]
    have isBelow : event ∈ bin.below := (mem_cons.mp inside).resolve_left isTop
    obtain ⟨above, under, whole⟩ := append_of_mem isBelow
    rw [without_of_below whole once]
    have wholePile : events.Linked Event.nextInBin (bin.top :: (above ++ event :: under)) (some bin.top) := by
      rw [← whole]
      exact binned.piles bin mem_cons_self
    have wholeOnce : (bin.top :: (above ++ event :: under)).Nodup := by
      rw [← whole]
      exact once
    have enough : above.length < events.next + 1 := by
      have short := binned.length_le bounded
      rw [flatMap_cons, length_append, Bin.events, whole, length_cons, length_append] at short
      omega
    obtain ⟨prev, object, after, member, held, ran, linked⟩ := removeBelow_ok wholePile wholeOnce enough
    have start : topObject.nextInBin = (above ++ event :: under).head? := by
      rw [pointsIn, pileBelow.start, whole]
    have touched : prev ∈ bin.events := by
      rw [Bin.events, whole, ← cons_append]
      exact mem_append_left _ member
    have relinked := relinked_write held touched object.nextBin after
    refine ⟨_, some bin.top, ?_, ?_, relinked⟩
    · rw [start, ran]
      rfl
    · refine @Binned.refill events _ bin ⟨bin.key, bin.top, above ++ under⟩ later onward binned relinked ?_ rfl points ?_ linked
      · rw [Bin.events, Bin.events, whole]
        exact (List.Sublist.append_left (sublist_cons_self _ _) _).cons_cons _
      · rw [field_write]
        split
        · next here =>
          rw [← here, heldTop, Option.some.injEq] at held
          rw [← held, leads]
        · exact points

theorem place_keys (late : ∀ bin ∈ later, key ≤ bin.key) : ∀ bin ∈ place key event later, key ≤ bin.key := by
  intro bin member
  cases later with
  | nil => rw [mem_singleton.mp member]
  | cons =>
    rw [place] at member
    split at member
    · obtain rfl | member := mem_cons.mp member
      · exact le_refl _
      · exact late bin member
    · obtain rfl | member := mem_cons.mp member
      · exact le_refl _
      · exact late bin (mem_cons_of_mem _ member)

theorem mem_place {other : Nat} :
    other ∈ (place key event later).flatMap Bin.events ↔ other = event ∨ other ∈ later.flatMap Bin.events := by
  cases later with
  | nil => simp [place, Bin.events]
  | cons =>
    rw [place]
    split
    · simp [Bin.events]
    · simp [Bin.events]

variable {queue : EventQueue}

theorem insert_ok {bins : List Bin} {event : Nat} {object : Event} (binned : Binned queue.events queue.head bins)
    (bounded : queue.events.Bounded) (held : queue.events.cell event = some object) (absent : event ∉ bins.flatMap Bin.events) :
    ∃ next before later touched, queue.insert event = .ok next ∧ Relinked queue.events next.events touched ∧
      bins = before ++ later ∧ (∀ bin ∈ before, bin.key < object.key) ∧ (∀ bin ∈ later, object.key ≤ bin.key) ∧
      Binned next.events next.head (before ++ place object.key event later) := by
  obtain ⟨before, later, rfl, early, late⟩ := binned.split object.key
  unfold EventQueue.insert
  rw [read_of_cell held, ok_bind]
  cases before with
  | nil =>
    -- the event goes before all bins, or onto the first
    obtain ⟨nextBin, nextInBin, ran, binned'⟩ := insertBefore_ok binned held late absent
    refine ⟨{ queue with events := queue.events.write event { object with nextBin, nextInBin }, head := some event }, [], later, [event],
      ?_, relinked_write held (mem_singleton.mpr rfl) nextBin nextInBin, rfl, nofun, late, binned'⟩
    cases top : queue.head with
    | none =>
      dsimp only
      rw [← top, ran]
      rfl
    | some first =>
      have start := binned.chain.start
      rw [top] at start
      obtain ⟨bin, isBin, isTop⟩ : ∃ bin ∈ later, bin.top = first :=
        mem_map.mp (mem_of_head? start.symm)
      obtain ⟨topObject, heldTop, same⟩ := field_eq_some (binned.keys bin isBin bin.top (top_mem bin))
      have small : object.le topObject = true := by
        rw [le_iff, same]
        exact late bin isBin
      dsimp only
      rw [← isTop, read_of_cell heldTop, ok_bind, if_pos small, isTop, ← top, ran]
      rfl
  | cons first before =>
    have member : first ∈ first :: before ++ later := mem_cons_self
    obtain ⟨topObject, heldTop, same⟩ := field_eq_some (binned.keys first member first.top (top_mem first))
    obtain ⟨onward, points, rest⟩ := @Binned.rest _ _ [] (before ++ later) first binned
    rw [field_of_cell heldTop, Option.some.injEq] at points
    subst points
    have large : ¬object.le topObject = true := by
      rw [le_iff, same, not_le]
      exact early first mem_cons_self
    have enough : before.length < queue.events.next + 1 := by
      have short := binned.count_le bounded
      rw [length_append, length_cons] at short
      omega
    obtain ⟨passed, last, whole, found⟩ := findBin_ok first rest (fun bin inside => early bin (mem_cons_of_mem _ inside)) late enough
    rw [whole] at binned absent early
    rw [append_assoc, singleton_append] at binned absent
    obtain ⟨onward, points, rest'⟩ := binned.rest
    have absent' : event ∉ later.flatMap Bin.events := by
      intro inside
      apply absent
      rw [flatMap_append, flatMap_cons]
      exact mem_append_right _ (mem_append_right _ inside)
    obtain ⟨nextBin, nextInBin, ran, binned'⟩ := insertBefore_ok rest' held late absent'
    obtain ⟨lastObject, heldLast, _⟩ := field_eq_some points
    have outside : ∀ other ∈ (passed ++ [last]).flatMap Bin.events, other ≠ event ∧ other ∉ later.flatMap Bin.events := by
      intro other inside
      have once := binned.once
      rw [show passed ++ last :: later = passed ++ [last] ++ later by simp, flatMap_append] at once absent
      refine ⟨fun here => absent (mem_append_left _ (here ▸ inside)), fun here => ?_⟩
      exact (nodup_append.mp once).2.2 other inside other here rfl
    have lastInside : last.top ∈ (passed ++ [last]).flatMap Bin.events :=
      mem_events (mem_append_cons_self) (top_mem last)
    have kept : ∀ other ∈ (passed ++ [last]).flatMap Bin.events,
        (queue.events.write event { object with nextBin, nextInBin }).cell other = queue.events.cell other := by
      intro other inside
      rw [write_cell, if_neg (outside other inside).1]
    have linked := binned.link binned' kept heldLast
      (fun bin inside => (early last (mem_append_cons_self)).trans_le (place_keys late bin inside))
      (fun other inside => fun there => by
        obtain here | there := mem_place.mp there
        · exact (outside other inside).1 here
        · exact (outside other inside).2 there)
    have heldLast' := (kept _ lastInside).trans heldLast
    have start := binned.chain.start
    have firstTop : queue.head = some first.top := by
      rw [start, show passed ++ last :: later = passed ++ [last] ++ later by simp, ← whole]
      rfl
    refine ⟨{ queue with
      events := (queue.events.write event { object with nextBin, nextInBin }).write last.top { lastObject with nextBin := some event } },
      passed ++ [last], later, [event] ++ [last.top], ?_, ?_, ?_, early, late, ?_⟩
    · rw [firstTop]
      dsimp only
      rw [read_of_cell heldTop, ok_bind, if_neg large, found, ok_bind, ← rest'.chain.start, ran, ok_bind, modify_of_cell heldLast']
      rfl
    · exact (relinked_write held (mem_singleton.mpr rfl) nextBin nextInBin).trans
        (relinked_write heldLast' (mem_singleton.mpr rfl) (some event) lastObject.nextInBin)
    · rw [whole]
    · rw [append_assoc, singleton_append]
      exact linked

theorem without_subset {bin' : Bin} (left : bin' ∈ bin.without event) :
    bin'.key = bin.key ∧ bin'.events = bin.events.filter (· ≠ event) := by
  unfold Bin.without at left
  cases stays : bin.events.filter (· ≠ event) with
  | nil =>
    rw [stays] at left
    cases left
  | cons =>
    rw [stays] at left
    cases left
    exact ⟨rfl, rfl⟩

theorem mem_without {other : Nat} : other ∈ (bin.without event).toList.flatMap Bin.events ↔ other ∈ bin.events ∧ other ≠ event := by
  have stays : (bin.without event).toList.flatMap Bin.events = bin.events.filter (· ≠ event) := by
    unfold Bin.without
    cases bin.events.filter (· ≠ event) with
    | nil => rfl
    | cons => simp [Bin.ofList, Bin.events]
  rw [stays, mem_filter, decide_eq_true_iff]

theorem remove_ok
    (binned : Binned queue.events queue.head (before ++ bin :: later)) (bounded : queue.events.Bounded) (inside : event ∈ bin.events)
    (held : queue.events.cell event = some object) (owned : object.queue = true) :
    ∃ next touched, queue.remove event = .ok next ∧ Relinked queue.events next.events touched ∧
      Binned next.events next.head (before ++ ((bin.without event).toList ++ later)) := by
  have key : object.key = bin.key := by
    have same := binned.keys bin (mem_append_cons_self) event inside
    rw [field_of_cell held, Option.some.injEq] at same
    exact same
  have checked : Fault.ensure object.queue "event->queue == this" = .ok () := by
    rw [owned]
    rfl
  unfold EventQueue.remove
  cases before with
  | nil =>
    have start : queue.head = some bin.top := binned.chain.start
    rw [nil_append, start] at binned
    obtain ⟨topObject, heldTop, same⟩ := field_eq_some (binned.keys bin mem_cons_self bin.top (top_mem bin))
    have equal : topObject.eq object = true := by
      rw [eq_iff, same, key]
    obtain ⟨after, onward, ran, binned', relinked⟩ := removeItem_ok binned bounded inside
    refine ⟨{ queue with events := after, head := onward }, bin.events, ?_, relinked, binned'⟩
    rw [start]
    dsimp only
    rw [read_of_cell held, ok_bind, checked, ok_bind, read_of_cell heldTop, ok_bind, if_pos equal, ran]
    rfl
  | cons first before =>
    have member : first ∈ first :: before ++ bin :: later := mem_cons_self
    obtain ⟨topObject, heldTop, same⟩ := field_eq_some (binned.keys first member first.top (top_mem first))
    obtain ⟨onward, points, rest⟩ := @Binned.rest _ _ [] (before ++ bin :: later) first binned
    rw [field_of_cell heldTop, Option.some.injEq] at points
    subst points
    obtain ⟨_, order, across⟩ := pairwise_append.mp binned.increasing
    have early : ∀ other ∈ first :: before, other.key < object.key := by
      intro other isEarly
      rw [key]
      exact across other isEarly bin mem_cons_self
    have late : ∀ other ∈ bin :: later, object.key ≤ other.key := by
      intro other isLate
      rw [key]
      obtain rfl | isLate := mem_cons.mp isLate
      · exact le_refl _
      · exact ((pairwise_cons.mp order).1 other isLate).le
    have different : ¬topObject.eq object = true := by
      rw [eq_iff, same]
      exact (early first mem_cons_self).ne
    have enough : before.length < queue.events.next + 1 := by
      have short := binned.count_le bounded
      rw [length_append, length_cons] at short
      omega
    obtain ⟨passed, last, whole, found⟩ := findBin_ok first rest (fun bin inside => early bin (mem_cons_of_mem _ inside)) late enough
    have start : queue.head = some first.top := binned.chain.start
    rw [whole] at binned early
    rw [append_assoc, singleton_append] at binned
    obtain ⟨onward, points, rest'⟩ := binned.rest
    have here : onward = some bin.top := rest'.chain.start
    subst here
    obtain ⟨currObject, heldCurr, sameCurr⟩ := field_eq_some (rest'.keys bin mem_cons_self bin.top (top_mem bin))
    have equal : currObject.eq object = true := by
      rw [eq_iff, sameCurr, key]
    obtain ⟨after, onward, ran, binned', relinked⟩ := removeItem_ok rest' bounded inside
    obtain ⟨lastObject, heldLast, _⟩ := field_eq_some points
    have apart : ∀ other ∈ (passed ++ [last]).flatMap Bin.events, other ∉ bin.events ∧ other ∉ later.flatMap Bin.events := by
      intro other isEarly
      have once := binned.once
      rw [show passed ++ last :: bin :: later = passed ++ [last] ++ bin :: later by simp, flatMap_append, flatMap_cons] at once
      have disjoint := (nodup_append.mp once).2.2 other isEarly
      exact ⟨fun there => disjoint other (mem_append_left _ there) rfl, fun there => disjoint other (mem_append_right _ there) rfl⟩
    have lastInside : last.top ∈ (passed ++ [last]).flatMap Bin.events :=
      mem_events (mem_append_cons_self) (top_mem last)
    have kept : ∀ other ∈ (passed ++ [last]).flatMap Bin.events, after.cell other = queue.events.cell other :=
      fun other isEarly => relinked.outside other (apart other isEarly).1
    have heldLast' := (kept _ lastInside).trans heldLast
    have linked := binned.link binned' kept heldLast
      (fun other isLeft => by
        have less := early last (mem_append_cons_self)
        obtain isLeft | isLate := mem_append.mp isLeft
        · rw [(without_subset (Option.mem_toList.mp isLeft)).1, ← key]
          exact less
        · exact less.trans_le (late other (mem_cons_of_mem _ isLate)))
      (fun other isEarly there => by
        rw [flatMap_append, mem_append, mem_without] at there
        obtain here | there := there
        · exact (apart other isEarly).1 here.1
        · exact (apart other isEarly).2 there)
    refine ⟨{ queue with events := after.write last.top { lastObject with nextBin := onward } }, bin.events ++ [last.top], ?_, ?_, ?_⟩
    · rw [start]
      dsimp only
      rw [read_of_cell held, ok_bind, checked, ok_bind, read_of_cell heldTop, ok_bind, if_neg different, found, ok_bind]
      simp only [map_cons, head?_cons]
      rw [read_of_cell heldCurr, ok_bind, equal, if_neg (by decide), ran, ok_bind, modify_of_cell heldLast']
      rfl
    · exact relinked.trans (relinked_write heldLast' (mem_singleton.mpr rfl) onward lastObject.nextInBin)
    · rw [whole, append_assoc, singleton_append]
      exact linked

theorem serviceOne_ok (binned : Binned queue.events queue.head (bin :: later)) (bounded : queue.events.Bounded) :
    ∃ next object touched between, queue.serviceOne = .ok (next, bin.top) ∧ queue.events.cell bin.top = some object ∧
      Relinked (queue.events.write bin.top { object with scheduled := false }) between touched ∧
      (next.events = between ∨ ∃ object', between.cell bin.top = some object' ∧
        next.events = between.write bin.top { object' with squashed := false }) ∧
      Binned between next.head ((bin.without bin.top).toList ++ later) := by
  have start : queue.head = some bin.top := binned.chain.start
  rw [start] at binned
  obtain ⟨object, held, _⟩ := field_eq_some (binned.keys bin mem_cons_self bin.top (top_mem bin))
  have binned' : Binned (queue.events.write bin.top { object with scheduled := false }) (some bin.top) (bin :: later) :=
    binned.write held rfl rfl rfl
  obtain ⟨between, onward, ran, binned'', relinked⟩ := removeItem_ok binned' (bounded.write held _) (top_mem bin)
  -- the code of removeItem for the top, written out once more
  have popped : EventQueue.pop (queue.events.write bin.top { object with scheduled := false }) object = .ok (between, onward) := by
    rw [← ran, removeItem, read_of_cell (by rw [write_cell, if_pos rfl]), ok_bind, if_pos rfl, EventQueue.pop]
    cases object.nextInBin with
    | none => rfl
    | some => rfl
  unfold EventQueue.serviceOne
  rw [start]
  dsimp only
  rw [read_of_cell held, ok_bind, modify_of_cell held, ok_bind, popped, ok_bind]
  by_cases squashed : object.squashed = true
  · have present := relinked.rest bin.top
    rw [field_write, if_pos rfl] at present
    obtain ⟨object', held', _⟩ := field_eq_some present
    refine ⟨{ queue with events := between.write bin.top { object' with squashed := false }, head := onward }, object, bin.events, between,
      ?_, held, relinked, .inr ⟨object', held', rfl⟩, binned''⟩
    rw [if_pos squashed, modify_of_cell held']
    rfl
  · refine ⟨{ queue with events := between, head := onward, curTick := object.when }, object, bin.events, between, ?_, held, relinked,
      .inl rfl, binned''⟩
    rw [if_neg squashed]
    rfl

abbrev Pending := List (Nat × (Nat ×ₗ Int))

/-- Each bin holds the pending events of its key, in their order, and no key is without
its bin. -/
structure Groups (bins : List Bin) (pending : Pending) : Prop where
  same : ∀ bin ∈ bins, pending.filter (·.2 = bin.key) = bin.events.map (·, bin.key)
  all : ∀ pair ∈ pending, ∃ bin ∈ bins, bin.key = pair.2

theorem groups_place (event : Nat)
    (groups : Groups (before ++ later) pending) (early : ∀ bin ∈ before, bin.key < key) (late : ∀ bin ∈ later, key ≤ bin.key)
    (increasing : later.Pairwise fun early late => early.key < late.key) :
    Groups (before ++ place key event later) ((event, key) :: pending) := by
  -- bins of other keys see nothing of the event
  have others : ∀ bin ∈ before ++ later, bin.key ≠ key → ((event, key) :: pending).filter (·.2 = bin.key) = bin.events.map (·, bin.key) := by
    intro bin member different
    rw [filter_cons_of_neg (by simpa using Ne.symm different)]
    exact groups.same bin member
  -- a bin of its own, when no other has its key
  have alone : (∀ bin ∈ before ++ later, bin.key ≠ key) → Groups (before ++ ⟨key, event, []⟩ :: later) ((event, key) :: pending) := by
    intro new
    have none_ : pending.filter (·.2 = key) = [] := by
      apply filter_eq_nil_iff.mpr
      intro pair member equal
      obtain ⟨bin, isBin, same⟩ := groups.all pair member
      exact new bin isBin (same.trans (of_decide_eq_true equal))
    refine ⟨?_, ?_⟩
    · intro bin member
      obtain old | rfl | old := (mem_append.mp member).imp_right mem_cons.mp
      · exact others bin (mem_append_left _ old) (new bin (mem_append_left _ old))
      · rw [filter_cons_of_pos (by simp), none_]
        rfl
      · exact others bin (mem_append_right _ old) (new bin (mem_append_right _ old))
    · intro pair member
      obtain rfl | member := mem_cons.mp member
      · exact ⟨⟨key, event, []⟩, mem_append_cons_self, rfl⟩
      · obtain ⟨bin, isBin, same⟩ := groups.all pair member
        refine ⟨bin, ?_, same⟩
        rw [mem_append] at isBin
        exact mem_append.mpr (isBin.imp_right (mem_cons_of_mem _))
  cases later with
  | nil =>
    refine alone fun bin member => ?_
    rw [append_nil] at member
    exact (early bin member).ne
  | cons first later =>
    obtain ⟨least, _⟩ := pairwise_cons.mp increasing
    rw [place]
    split
    · next less =>
      refine alone fun bin member => ?_
      obtain old | rfl | old := (mem_append.mp member).imp_right mem_cons.mp
      · exact (early bin old).ne
      · exact less.ne'
      · exact (less.trans (least bin old)).ne'
    · next notLess =>
      have equal : key = first.key := le_antisymm (late first mem_cons_self) (not_lt.mp notLess)
      have isFirst : first ∈ before ++ first :: later := mem_append_cons_self
      refine ⟨?_, ?_⟩
      · intro bin member
        obtain old | rfl | old := (mem_append.mp member).imp_right mem_cons.mp
        · exact others bin (mem_append_left _ old) (early bin old).ne
        · have rest := groups.same first isFirst
          rw [← equal] at rest
          rw [filter_cons_of_pos (by simp), rest]
          rfl
        · exact others bin (mem_append_right _ (mem_cons_of_mem _ old)) (equal ▸ (least bin old).ne')
      · intro pair member
        obtain rfl | member := mem_cons.mp member
        · exact ⟨⟨key, event, first.events⟩, mem_append_cons_self, rfl⟩
        · obtain ⟨bin, isBin, same⟩ := groups.all pair member
          obtain old | rfl | old := (mem_append.mp isBin).imp_right mem_cons.mp
          · exact ⟨bin, mem_append_left _ old, same⟩
          · exact ⟨⟨key, event, bin.events⟩, mem_append_cons_self, equal.trans same⟩
          · exact ⟨bin, mem_append_right _ (mem_cons_of_mem _ old), same⟩

theorem groups_without (groups : Groups (before ++ bin :: later) pending) (once : ((before ++ bin :: later).flatMap Bin.events).Nodup)
    (inside : event ∈ bin.events) :
    Groups (before ++ ((bin.without event).toList ++ later)) (pending.filter (·.1 ≠ event)) := by
  have narrowed : ∀ other ∈ before ++ bin :: later, (pending.filter (·.1 ≠ event)).filter (·.2 = other.key) =
      (other.events.filter (· ≠ event)).map (·, other.key) := by
    intro other member
    rw [filter_comm, groups.same other member, filter_map]
    rfl
  have apart : ∀ other ∈ before ++ later, event ∉ other.events := by
    intro other member there
    rw [flatMap_append, flatMap_cons] at once
    obtain ⟨_, once', disjoint⟩ := nodup_append.mp once
    obtain old | old := mem_append.mp member
    · exact disjoint event (mem_events old there) event (mem_append_left _ inside) rfl
    · exact (nodup_append.mp once').2.2 event inside event (mem_events old there) rfl
  have whole : ∀ other ∈ before ++ later, other ∈ before ++ bin :: later := by
    intro other member
    exact mem_append.mpr ((mem_append.mp member).imp_right (mem_cons_of_mem _))
  have others : ∀ other ∈ before ++ later, (pending.filter (·.1 ≠ event)).filter (·.2 = other.key) = other.events.map (·, other.key) := by
    intro other member
    rw [narrowed other (whole other member), filter_eq_self.mpr]
    intro kept here
    exact decide_eq_true fun same => apart other member (same ▸ here)
  refine ⟨?_, ?_⟩
  · intro other member
    obtain old | rest := mem_append.mp member
    · exact others other (mem_append_left _ old)
    · obtain left | old := mem_append.mp rest
      · obtain ⟨key, stays⟩ := without_subset (Option.mem_toList.mp left)
        rw [stays, key]
        exact narrowed bin (mem_append_cons_self)
      · exact others other (mem_append_right _ old)
  · intro pair member
    obtain ⟨held, _⟩ := mem_filter.mp member
    obtain ⟨other, isBin, same⟩ := groups.all pair held
    obtain old | rfl | old := (mem_append.mp isBin).imp_right mem_cons.mp
    · exact ⟨other, mem_append_left _ old, same⟩
    · have stays : pair ∈ (other.events.filter (· ≠ event)).map (·, other.key) := by
        rw [← narrowed other isBin]
        exact mem_filter.mpr ⟨member, decide_eq_true same.symm⟩
      obtain ⟨kept, isKept, _⟩ := mem_map.mp stays
      obtain ⟨bin', left, _⟩ := mem_flatMap.mp (mem_without.mpr (by simpa using mem_filter.mp isKept))
      refine ⟨bin', mem_append_right _ (mem_append_left _ left), ?_⟩
      rw [(without_subset (Option.mem_toList.mp left)).1, same]
    · exact ⟨other, mem_append_right _ (mem_append_right _ old), same⟩

/-- Of the least key, and the latest of that key. -/
def IsNext (pending : Pending) (event : Nat) : Prop :=
  ∃ key later earlier, pending = later ++ (event, key) :: earlier ∧ (∀ other ∈ later, key < other.2) ∧ ∀ other ∈ earlier, key ≤ other.2

theorem groups_next (groups : Groups (bin :: later) pending)
    (increasing : (bin :: later).Pairwise fun early late => early.key < late.key) : IsNext pending bin.top := by
  have least : ∀ pair ∈ pending, bin.key ≤ pair.2 := by
    intro pair member
    obtain ⟨other, isBin, same⟩ := groups.all pair member
    rw [← same]
    obtain rfl | old := mem_cons.mp isBin
    · exact le_refl _
    · exact ((pairwise_cons.mp increasing).1 other old).le
  have first := groups.same bin mem_cons_self
  rw [Bin.events, map_cons, filter_eq_cons_iff] at first
  obtain ⟨recent, earlier, rfl, none_, _⟩ := first
  refine ⟨bin.key, recent, earlier, rfl, ?_, ?_⟩
  · intro other member
    refine lt_of_le_of_ne (least other (mem_append_left _ member)) fun same => none_ other member ?_
    exact decide_eq_true same.symm
  · intro other member
    exact least other (mem_append_right _ (mem_cons_of_mem _ member))

/-- The queue holds the pending events, and flags them alone. -/
structure Sound (queue : EventQueue) (bins : List Bin) (pending : Pending) : Prop where
  binned : Binned queue.events queue.head bins
  groups : Groups bins pending
  scheduled : ∀ event, queue.scheduled event = some true ↔ event ∈ bins.flatMap Bin.events
  owned : ∀ event, queue.scheduled event = some true → queue.events.field Event.queue event = some true
  bounded : queue.events.Bounded

def unsquashed (event : Event) : Event := { event with squashed := false }

theorem Sound.change {bins : List Bin} {pending : Pending} (sound : Sound queue bins pending) {events : Heap Event}
    (same : ∀ event ∈ bins.flatMap Bin.events, events.field unsquashed event = queue.events.field unsquashed event)
    (others : ∀ event, event ∉ bins.flatMap Bin.events → events.field Event.scheduled event ≠ some true) (bounded : events.Bounded) :
    Sound { queue with events } bins pending := by
  have tops : ∀ event ∈ bins.map Bin.top, event ∈ bins.flatMap Bin.events := by
    intro event isTop
    obtain ⟨bin, member, rfl⟩ := mem_map.mp isTop
    exact mem_events member (top_mem bin)
  have scheduled : ∀ event, events.field Event.scheduled event = some true ↔ event ∈ bins.flatMap Bin.events := by
    intro event
    constructor
    · intro on
      by_contra outside
      exact others event outside on
    · intro inside
      rw [field_congr (same event inside) fun _ => rfl]
      exact (sound.scheduled event).mpr inside
  refine ⟨?_, sound.groups, scheduled, ?_, bounded⟩
  · refine sound.binned.frame ?_ ?_ ?_
    · exact fun event isTop => field_congr (same event (tops event isTop)) fun _ => rfl
    · exact fun event inside => field_congr (same event inside) fun _ => rfl
    · exact fun event inside => field_congr (same event inside) fun _ => rfl
  · intro event on
    have inside := (scheduled event).mp on
    rw [field_congr (same event inside) fun _ => rfl]
    exact sound.owned event ((sound.scheduled event).mpr inside)

theorem Sound.drop {next : EventQueue} {before later : List Bin} {bin : Bin} {pending : Pending} {event : Nat}
    (sound : Sound queue (before ++ bin :: later) pending) (inside : event ∈ bin.events)
    (binned : Binned next.events next.head (before ++ ((bin.without event).toList ++ later)))
    (others : ∀ other, other ≠ event → next.events.field unlinked other = queue.events.field unlinked other)
    (off : next.scheduled event = some false) (bounded : next.events.Bounded) :
    Sound next (before ++ ((bin.without event).toList ++ later)) (pending.filter (·.1 ≠ event)) := by
  refine ⟨binned, groups_without sound.groups sound.binned.once inside, ?_, ?_, bounded⟩
  · intro other
    rw [flatMap_append, flatMap_append, mem_append, mem_append, mem_without]
    by_cases here : other = event
    · subst here
      rw [off]
      refine ⟨nofun, fun member => ?_⟩
      have once := sound.binned.once
      rw [flatMap_append, flatMap_cons] at once
      obtain ⟨_, once', disjoint⟩ := nodup_append.mp once
      obtain early | same | late := member
      · exact absurd rfl (disjoint other early other (mem_append_left _ inside))
      · exact absurd rfl same.2
      · exact absurd rfl ((nodup_append.mp once').2.2 other inside other late)
    · have same : next.scheduled other = queue.scheduled other := field_congr (others other here) fun _ => rfl
      rw [same, sound.scheduled, flatMap_append, flatMap_cons, mem_append, mem_append]
      simp only [here, ne_eq, not_false_eq_true, and_true]
  · intro other on
    have apart : other ≠ event := by
      intro here
      rw [here, off] at on
      cases on
    have same : next.scheduled other = queue.scheduled other := field_congr (others other apart) fun _ => rfl
    rw [field_congr (others other apart) fun _ => rfl]
    exact sound.owned other (same ▸ on)

def afterwards : List QueueLabel → Pending → Pending
  | [], pending => pending
  | .inserted event key :: rest, pending => afterwards rest ((event, key) :: pending)
  | .removed event :: rest, pending | .serviced event :: rest, pending => afterwards rest (pending.filter (·.1 ≠ event))

def serves : Pending → List QueueLabel → Prop
  | _, [] => True
  | pending, .inserted event key :: rest => serves ((event, key) :: pending) rest
  | pending, .removed event :: rest => serves (pending.filter (·.1 ≠ event)) rest
  | pending, .serviced event :: rest => IsNext pending event ∧ serves (pending.filter (·.1 ≠ event)) rest

theorem afterwards_append (early late : List QueueLabel) (pending : Pending) :
    afterwards (early ++ late) pending = afterwards late (afterwards early pending) := by
  induction early generalizing pending with
  | nil => rfl
  | cons label _ ih =>
    cases label with
    | inserted => exact ih _
    | removed => exact ih _
    | serviced => exact ih _

theorem serves_append {early late : List QueueLabel} (first : serves pending early)
    (second : serves (afterwards early pending) late) : serves pending (early ++ late) := by
  induction early generalizing pending with
  | nil => exact second
  | cons label _ ih =>
    cases label with
    | inserted | removed => exact ih first second
    | serviced => exact ⟨first.1, ih first.2 second⟩

section

variable (sound : Sound queue bins pending)
include sound

theorem insert_step (when : Nat) (allowed : queue.scheduled event = some false) :
    ∃ next key bins', EventQueue.step queue (.insert event when) = .ok (next, [.inserted event key]) ∧
      Sound next bins' ((event, key) :: pending) := by
  obtain ⟨object, held, _⟩ := field_eq_some allowed
  have absent : event ∉ bins.flatMap Bin.events := by
    intro inside
    rw [(sound.scheduled event).mpr inside] at allowed
    cases allowed
  have timed : Binned (queue.events.write event { object with when, queue := true }) queue.head bins := by
    apply sound.binned.frame_cells
    intro other inside
    have apart : other ≠ event := fun here => absent (here ▸ inside)
    rw [write_cell, if_neg apart]
  have heldTimed : (queue.events.write event { object with when, queue := true }).cell event = some { object with when, queue := true } := by
    rw [write_cell, if_pos rfl]
  obtain ⟨next, before, later, _, ran, relinked, rfl, early, late, binned⟩ :=
    @insert_ok { queue with events := queue.events.write event { object with when, queue := true } } bins event _ timed
      (sound.bounded.write held _) heldTimed absent
  have present := relinked.rest event
  rw [field_of_cell heldTimed] at present
  obtain ⟨linkedObject, heldLinked, shape⟩ := field_eq_some present
  have others : ∀ other, other ≠ event → (next.events.write event { linkedObject with scheduled := true }).field unlinked other =
      queue.events.field unlinked other := by
    intro other apart
    rw [field_write, if_neg apart, relinked.rest other, field_write, if_neg apart]
  refine ⟨{ next with events := next.events.write event { linkedObject with scheduled := true } }, toLex (when, object.priority),
    before ++ place (toLex (when, object.priority)) event later, ?_, ?_, ?_, ?_, ?_, ?_⟩
  · unfold EventQueue.step
    dsimp only
    rw [read_of_cell held, ok_bind, modify_of_cell held, ok_bind, ran, ok_bind, modify_of_cell heldLinked]
    rfl
  · exact binned.write heldLinked rfl rfl rfl
  · exact groups_place event sound.groups early late (pairwise_append.mp sound.binned.increasing).2.1
  · intro other
    rw [flatMap_append, mem_append, mem_place]
    by_cases here : other = event
    · subst here
      refine ⟨fun _ => .inr (.inl rfl), fun _ => ?_⟩
      change (next.events.write other _).field Event.scheduled other = some true
      rw [field_write, if_pos rfl]
    · have same : EventQueue.scheduled { next with events := next.events.write event { linkedObject with scheduled := true } } other =
          queue.scheduled other := field_congr (others other here) fun _ => rfl
      rw [same, sound.scheduled, flatMap_append, mem_append]
      simp only [here, false_or]
  · intro other on
    by_cases here : other = event
    · subst here
      have kept : linkedObject.queue = true := congrArg Event.queue shape
      rw [field_write, if_pos rfl]
      exact congrArg some kept
    · have same : EventQueue.scheduled { next with events := next.events.write event { linkedObject with scheduled := true } } other =
          queue.scheduled other := field_congr (others other here) fun _ => rfl
      rw [field_congr (others other here) fun _ => rfl]
      exact sound.owned other (same ▸ on)
  · exact (relinked.bounded (sound.bounded.write held _)).write heldLinked _

theorem remove_step (allowed : queue.scheduled event = some true) :
    ∃ next bins', EventQueue.step queue (.remove event) = .ok (next, [.removed event]) ∧
      Sound next bins' (pending.filter (·.1 ≠ event)) := by
  obtain ⟨_, isBin, inside⟩ := mem_flatMap.mp ((sound.scheduled event).mp allowed)
  obtain ⟨_, _, rfl⟩ := append_of_mem isBin
  obtain ⟨_, held, owned⟩ := field_eq_some (sound.owned event allowed)
  obtain ⟨next, _, ran, relinked, binned⟩ := remove_ok sound.binned sound.bounded inside held owned
  have present := relinked.rest event
  rw [field_of_cell held] at present
  obtain ⟨left, heldLeft, _⟩ := field_eq_some present
  have others : ∀ other, other ≠ event → (next.events.write event { left with squashed := false, scheduled := false }).field unlinked other =
      queue.events.field unlinked other := by
    intro other apart
    rw [field_write, if_neg apart, relinked.rest other]
  refine ⟨{ next with events := next.events.write event { left with squashed := false, scheduled := false } }, _, ?_,
    sound.drop inside ?_ others ?_ ((relinked.bounded sound.bounded).write heldLeft _)⟩
  · unfold EventQueue.step
    dsimp only
    rw [ran, ok_bind, modify_of_cell heldLeft]
    rfl
  · exact binned.write heldLeft rfl rfl rfl
  · unfold EventQueue.scheduled
    rw [field_write, if_pos rfl]

theorem serviceOne_step (allowed : queue.head.isSome) :
    ∃ next event bins', EventQueue.step queue .serviceOne = .ok (next, [.serviced event]) ∧ IsNext pending event ∧
      Sound next bins' (pending.filter (·.1 ≠ event)) := by
  cases bins with
  | nil =>
    have start : queue.head = none := sound.binned.chain.start
    rw [start] at allowed
    cases allowed
  | cons bin later =>
    obtain ⟨next, object, _, between, ran, held, relinked, done, binned⟩ := serviceOne_ok sound.binned sound.bounded
    have bounded := relinked.bounded (sound.bounded.write held { object with scheduled := false })
    have others : ∀ other, other ≠ bin.top → between.field unlinked other = queue.events.field unlinked other := by
      intro other apart
      rw [relinked.rest other, field_write, if_neg apart]
    have off : between.field Event.scheduled bin.top = some false := by
      have same : between.field Event.scheduled bin.top =
          (queue.events.write bin.top { object with scheduled := false }).field Event.scheduled bin.top :=
        field_congr (relinked.rest bin.top) fun _ => rfl
      rw [same, field_write, if_pos rfl]
    refine ⟨next, bin.top, _, ?_, groups_next sound.groups sound.binned.increasing, @Sound.drop queue next [] later bin pending bin.top
      sound (top_mem bin) ?_ ?_ ?_ ?_⟩
    · unfold EventQueue.step
      dsimp only
      rw [ran]
      rfl
    · obtain same | ⟨object', held', same⟩ := done
      · rw [same]
        exact binned
      · rw [same]
        exact binned.write held' rfl rfl rfl
    · intro other apart
      obtain same | ⟨object', held', same⟩ := done
      · rw [same, others other apart]
      · rw [same, field_write, if_neg apart, others other apart]
    · obtain same | ⟨object', held', same⟩ := done
      · rw [EventQueue.scheduled, same, off]
      · rw [field_of_cell held', Option.some.injEq] at off
        rw [EventQueue.scheduled, same, field_write, if_pos rfl, off]
    · obtain same | ⟨object', held', same⟩ := done
      · rw [same]
        exact bounded
      · rw [same]
        exact bounded.write held' _

theorem step_ok {op : QueueOp} (allowed : queue.Allowed op) :
    ∃ next labels bins', EventQueue.step queue op = .ok (next, labels) ∧ Sound next bins' (afterwards labels pending) ∧
      serves pending labels := by
  have insideBound : ∀ event ∈ bins.flatMap Bin.events, event < queue.events.next := by
    intro event inside
    obtain ⟨_, _, _, object, held, _⟩ := sound.binned.held inside
    exact sound.bounded event object held
  have outsideOff : ∀ event, event ∉ bins.flatMap Bin.events → queue.events.field Event.scheduled event ≠ some true :=
    fun event outside on => outside ((sound.scheduled event).mp on)
  cases op with
  | create =>
    refine ⟨_, [], bins, rfl, sound.change ?_ ?_ ?_, trivial⟩
    · intro event inside
      have old : event ≠ queue.events.next := (insideBound event inside).ne
      rw [field, alloc_cell, if_neg old, field]
    · intro event outside
      rw [field, alloc_cell]
      split
      · simp
      · exact outsideOff event outside
    · intro event object held
      rw [alloc_cell] at held
      rw [alloc_next]
      split at held
      · omega
      · have := sound.bounded event object held
        omega
  | insert _ when =>
    obtain ⟨next, _, bins', ran, kept⟩ := insert_step sound when allowed
    exact ⟨next, _, bins', ran, kept, trivial⟩
  | remove =>
    obtain ⟨next, bins', ran, kept⟩ := remove_step sound allowed
    exact ⟨next, _, bins', ran, kept, trivial⟩
  | squash event =>
    obtain ⟨_, present⟩ := Option.isSome_iff_exists.mp allowed
    obtain ⟨object, held, _⟩ := field_eq_some present
    refine ⟨_, [], bins, ?_, @Sound.change queue bins pending sound (queue.events.write event { object with squashed := true })
      (fun other _ => field_write_of_same held (by rfl) other) ?_ (sound.bounded.write held _), trivial⟩
    · unfold EventQueue.step
      dsimp only
      rw [modify_of_cell held]
      rfl
    · intro other outside
      have same : (queue.events.write event { object with squashed := true }).field Event.scheduled other =
          queue.events.field Event.scheduled other := field_write_of_same held (by rfl) other
      rw [same]
      exact outsideOff other outside
  | serviceOne =>
    obtain ⟨next, event, bins', ran, isNext, kept⟩ := serviceOne_step sound allowed
    exact ⟨next, _, bins', ran, kept, isNext, trivial⟩
  | delete event =>
    have absent : event ∉ bins.flatMap Bin.events := by
      intro inside
      have off : queue.scheduled event = some false := allowed
      rw [(sound.scheduled event).mpr inside] at off
      cases off
    refine ⟨_, [], bins, rfl, sound.change ?_ ?_ ?_, trivial⟩
    · intro other inside
      have apart : other ≠ event := fun here => absent (here ▸ inside)
      rw [field, free_cell, if_neg apart, field]
    · intro other outside
      rw [field, free_cell]
      split
      · simp
      · exact outsideOff other outside
    · intro other object held
      rw [free_cell] at held
      split at held
      · cases held
      · exact sound.bounded other object held

end

theorem empty_sound : Sound EventQueue.empty [] [] :=
  ⟨⟨rfl, .nil, nofun, nofun, .nil⟩, ⟨nofun, nofun⟩, fun _ => ⟨nofun, nofun⟩, nofun, nofun⟩

def Exact (queue : EventQueue) (pending : Pending) : Prop :=
  ∃ bins, Binned queue.events queue.head bins ∧ Groups bins pending ∧
    ∀ event, queue.scheduled event = some true ↔ event ∈ bins.flatMap Bin.events

/-- The queue serves what is next and holds what is pending. -/
theorem exact_priority_queue (ops : List QueueOp) (each : Each EventQueue.step EventQueue.Allowed EventQueue.empty ops) :
    ∃ queue labels, run EventQueue.step EventQueue.empty ops = .ok (queue, labels) ∧ serves [] labels ∧
      Exact queue (afterwards labels []) := by
  obtain ⟨queue, labels, ran, ⟨bins, sound⟩, served⟩ := run_advances EventQueue.Allowed
    (fun queue labels => (∃ bins, Sound queue bins (afterwards labels [])) ∧ serves [] labels)
    (by
      intro queue past op ⟨⟨bins, sound⟩, served⟩ allowed
      obtain ⟨next, labels, bins', ran, kept, more⟩ := step_ok sound allowed
      refine ⟨next, labels, ran, ⟨bins', ?_⟩, serves_append served more⟩
      rw [afterwards_append]
      exact kept)
    ⟨⟨[], empty_sound⟩, trivial⟩ each
  exact ⟨queue, labels, ran, served, bins, sound.binned, sound.groups, sound.scheduled⟩

def queueHistory : List QueueOp :=
  [.create 0, .create 0, .create 5, .create 0, .create (-1), .insert 0 10, .insert 1 10, .insert 2 10, .insert 3 10, .insert 4 20,
    .remove 1, .serviceOne, .insert 1 10, .remove 1, .squash 0, .serviceOne, .delete 0, .serviceOne, .insert 3 5, .remove 4, .serviceOne]

theorem exact_priority_queue_history :
    ∃ queue labels, run EventQueue.step EventQueue.empty queueHistory = .ok (queue, labels) ∧ serves [] labels ∧
      Exact queue (afterwards labels []) :=
  exact_priority_queue queueHistory (by decide)

end ImcGem5.Sim.Proofs.EventQueue
