import ImcGem5.Mem.Dram
import ImcGem5.Proofs.Blob

/-! The bursts of a packet, and what the labels of the DRAM controller tell of packets:
which bursts were made for them, which were covered by the write queue or served, and
when they were answered. -/

namespace ImcGem5.Mem.Dram.Proofs.Accounting
open Lib Dram.MemCtrl Mem.Proofs.Blob List
open BitVec hiding append_assoc not_not
open Nat (mod_eq_of_lt two_pow_pos)

section Tiling
variable {params : Params} {incoming : Incoming} {k : Nat}

/-- Pieces that begin where the one before ends, none of which crosses a boundary. -/
def Tiles (burst : Nat) : Nat → Nat → List (Addr × Nat) → Prop
  | start, stop, [] => start = stop
  | start, stop, (addr, size) :: rest =>
    addr.toNat = start ∧ 0 < size ∧ start / burst = (start + size - 1) / burst ∧ Tiles burst (start + size) stop rest

structure Burst (params : Params) (k : Nat) : Prop where
  small : k < 32
  size : params.burstSize = BitVec.ofNat 32 (2 ^ k)

/-- The 32-bit count and 64-bit end do not wrap. -/
structure Fits (params : Params) (incoming : Incoming) : Prop where
  count : incoming.pkt.addr.toNat % params.burstSize.toNat + incoming.pkt.size + params.burstSize.toNat ≤ 2 ^ 32
  stop : incoming.pkt.addr.toNat + incoming.pkt.size + params.burstSize.toNat ≤ 2 ^ 64

section

variable (burst : Burst params k)
include burst

theorem Burst.toNat : params.burstSize.toNat = 2 ^ k := by
  rw [burst.size, toNat_ofNat, mod_eq_of_lt (Nat.pow_lt_pow_right (by omega) burst.small)]

theorem Burst.mask : params.burstMask = BitVec.ofNat 64 (2 ^ k) - 1 := by
  have positive := two_pow_pos k
  apply eq_of_toNat_eq
  rw [mask_eq (by have := burst.small; omega), Params.burstMask, toNat_setWidth, toNat_sub_of_le, burst.toNat, toNat_ofNat]
  · rfl
  · rw [le_def, burst.toNat]
    exact positive

theorem Burst.offset (addr : Addr) : (addr &&& params.burstMask).toNat = addr.toNat % 2 ^ k := by
  have small : 2 ^ k < 2 ^ 64 := Nat.pow_lt_pow_right (by omega) (by have := burst.small; omega)
  rw [burst.mask, mask_eq (by have := burst.small; omega), toNat_and, toNat_ofNat, mod_eq_of_lt (by omega),
    Nat.and_two_pow_sub_one_eq_mod]

theorem Burst.filled (addr : Addr) : (addr ||| params.burstMask).toNat + 1 = boundary k addr := by
  have fits : k < 64 := by
    have := burst.small
    omega
  have positive := two_pow_pos k
  have parts : addr ||| params.burstMask = (addr &&& ~~~params.burstMask) + params.burstMask := by
    rw [add_eq_or_of_and_eq_zero]
    · apply eq_of_getLsbD_eq
      intro i inside
      simp only [getLsbD_or, getLsbD_and, getLsbD_not, inside, decide_true, Bool.true_and]
      cases addr.getLsbD i <;> cases params.burstMask.getLsbD i <;> rfl
    · rw [BitVec.and_assoc, BitVec.and_comm (~~~params.burstMask), BitVec.and_not_self]
      exact and_zero
  have low : params.burstMask.toNat = 2 ^ k - 1 := by
    rw [burst.mask, mask_eq fits, toNat_ofNat, mod_eq_of_lt]
    have small : 2 ^ k < 2 ^ 64 := Nat.pow_lt_pow_right (by omega) fits
    omega
  have high : (addr &&& ~~~params.burstMask).toNat = addr.toNat / 2 ^ k * 2 ^ k := by
    rw [burst.mask, cleared fits]
  have bound := boundary_le fits addr
  unfold boundary at bound ⊢
  rw [parts, toNat_add, high, low, mod_eq_of_lt (by omega)]
  omega

theorem packetCount_eq (fits : Fits params incoming) :
    packetCount params incoming = (incoming.pkt.addr.toNat % 2 ^ k + incoming.pkt.size + 2 ^ k - 1) / 2 ^ k := by
  have bound := fits.count
  rw [burst.toNat] at bound
  have offset : ((incoming.pkt.addr &&& params.burstMask).setWidth 32).toNat = incoming.pkt.addr.toNat % 2 ^ k := by
    rw [toNat_setWidth, burst.offset, mod_eq_of_lt (by omega)]
  have size : incoming.size.toNat = incoming.pkt.size := by
    rw [Incoming.size, toNat_ofNat, mod_eq_of_lt (by omega)]
  unfold packetCount
  rw [toNat_udiv, burst.toNat, toNat_sub, toNat_add, toNat_add, offset, size, burst.toNat]
  congr 1
  rw [show (1 : BitVec 32).toNat = 1 from rfl, Nat.add_mod_mod, mod_eq_of_lt (a := incoming.pkt.addr.toNat % 2 ^ k + _) (by omega)]
  omega

variable {addr : Addr}

theorem next_toNat (fits : Fits params incoming) (inside : addr.toNat < incoming.pkt.addr.toNat + incoming.pkt.size) :
    ((addr ||| params.burstMask) + 1).toNat = boundary k addr := by
  have below := fits.stop
  rw [burst.toNat] at below
  have filled := burst.filled addr
  have near := boundary_le_add k addr
  rw [toNat_add, filled.symm, show (1 : Addr).toNat = 1 from rfl, mod_eq_of_lt (by omega)]

theorem burstsFrom_cons (fits : Fits params incoming) (count : Nat)
    (inside : addr.toNat < incoming.pkt.addr.toNat + incoming.pkt.size) :
    burstsFrom params incoming (count + 1) addr =
      (addr, min (incoming.pkt.addr.toNat + incoming.pkt.size) (boundary k addr) - addr.toNat) ::
        burstsFrom params incoming count ((addr ||| params.burstMask) + 1) := by
  have small : 2 ^ k < 2 ^ 32 := Nat.pow_lt_pow_right (by omega) burst.small
  have counts := fits.count
  have below := fits.stop
  rw [burst.toNat] at below counts
  have after := lt_boundary k addr
  have near := boundary_le_add k addr
  have next := next_toNat burst fits inside
  have stop : (incoming.pkt.addr + incoming.size.setWidth 64).toNat = incoming.pkt.addr.toNat + incoming.pkt.size := by
    rw [toNat_add, toNat_setWidth, Incoming.size, toNat_ofNat]
    omega
  rw [burstsFrom]
  congr 2
  rw [toNat_setWidth]
  split
  next first =>
    rw [lt_def, stop, next] at first
    rw [toNat_sub_of_le (by rw [le_def, stop]; omega), stop, mod_eq_of_lt (by omega), Nat.min_eq_left (by omega)]
  next later =>
    rw [lt_def, stop, next] at later
    rw [toNat_sub_of_le (by rw [le_def, next]; omega), next, mod_eq_of_lt (by omega), Nat.min_eq_right (by omega)]

end

theorem same_burst {size : Nat} (some : 0 < size) (before : addr.toNat + size ≤ boundary k addr) :
    addr.toNat / 2 ^ k = (addr.toNat + size - 1) / 2 ^ k := by
  have low := Nat.div_mul_le_self addr.toNat (2 ^ k)
  symm
  rw [Nat.div_eq_iff (two_pow_pos k)]
  unfold boundary at before
  omega

theorem burstsFrom_tiles (burst : Burst params k) (fits : Fits params incoming) (count : Nat)
    (inside : addr.toNat < incoming.pkt.addr.toNat + incoming.pkt.size)
    (enough : incoming.pkt.addr.toNat + incoming.pkt.size ≤ boundary k addr + count * 2 ^ k)
    (needed : boundary k addr + count * 2 ^ k < incoming.pkt.addr.toNat + incoming.pkt.size + 2 ^ k) :
    Tiles (2 ^ k) addr.toNat (incoming.pkt.addr.toNat + incoming.pkt.size) (burstsFrom params incoming (count + 1) addr) := by
  have after := lt_boundary k addr
  rw [burstsFrom_cons burst fits count inside]
  refine ⟨rfl, by omega, same_burst (by omega) (by omega), ?_⟩
  cases count with
  | zero =>
    show addr.toNat + _ = _
    omega
  | succ count =>
    have next := next_toNat burst fits inside
    rw [Nat.add_mul] at enough needed
    have start : addr.toNat + (min (incoming.pkt.addr.toNat + incoming.pkt.size) (boundary k addr) - addr.toNat) =
        ((addr ||| params.burstMask) + 1).toNat := by
      rw [next]
      omega
    have further : boundary k ((addr ||| params.burstMask) + 1) = boundary k addr + 2 ^ k := by
      rw [boundary, next]
      unfold boundary
      rw [Nat.add_div_right _ (two_pow_pos k), Nat.mul_div_cancel _ (two_pow_pos k), Nat.succ_mul]
    rw [start]
    apply burstsFrom_tiles burst fits count
    · rw [next]
      omega
    · rw [further]
      omega
    · rw [further]
      omega

theorem bursts_tile (burst : Burst params k) (fits : Fits params incoming) (some : incoming.pkt.size ≠ 0) :
    Tiles params.burstSize.toNat incoming.pkt.addr.toNat (incoming.pkt.addr.toNat + incoming.pkt.size) (bursts params incoming) := by
  rw [burst.toNat]
  have positive := two_pow_pos k
  have split := Nat.div_add_mod' incoming.pkt.addr.toNat (2 ^ k)
  have counted := packetCount_eq burst fits
  obtain ⟨count, same⟩ : ∃ count, packetCount params incoming = count + 1 := by
    refine Nat.exists_eq_succ_of_ne_zero (Nat.ne_of_gt ?_)
    rw [counted]
    exact Nat.div_pos (by omega) positive
  rw [bursts, same]
  have quotient := same.symm.trans counted
  rw [eq_comm, Nat.div_eq_iff positive] at quotient
  rw [Nat.add_mul] at quotient
  apply burstsFrom_tiles burst fits
  · omega
  · unfold boundary
    omega
  · unfold boundary
    omega

theorem Tiles.mem {burst start stop : Nat} {pieces : List (Addr × Nat)} (positive : 0 < burst) (tiles : Tiles burst start stop pieces) :
    start ≤ stop ∧ ∀ piece ∈ pieces, piece.2 ≤ burst ∧ piece.1.toNat + piece.2 ≤ stop := by
  induction pieces generalizing start with
  | nil => exact ⟨Nat.le_of_eq tiles, nofun⟩
  | cons _ _ ih =>
    obtain ⟨_, _, together, rest⟩ := tiles
    obtain ⟨_, others⟩ := ih rest
    refine ⟨by omega, fun other member => ?_⟩
    obtain rfl | member := mem_cons.mp member
    · have low := Nat.div_mul_le_self start burst
      have high := Nat.lt_div_mul_add (a := start + other.2 - 1) positive
      rw [← together] at high
      constructor <;> omega
    · exact others other member

theorem mem_bursts (burst : Burst params k) (fits : Fits params incoming) (some : incoming.pkt.size ≠ 0) :
    ∀ piece ∈ bursts params incoming, piece.2 ≤ params.burstSize.toNat ∧ piece.1.toNat + piece.2 < 2 ^ 64 := by
  intro piece member
  have positive : 0 < params.burstSize.toNat := by
    rw [burst.toNat]
    exact two_pow_pos k
  obtain ⟨small, _⟩ := ((bursts_tile burst fits some).mem positive).2 piece member
  have below := fits.stop
  exact ⟨small, by omega⟩

end Tiling

section Labels
variable {params : Params}

def acceptedOf (labels : List Label) : List Incoming :=
  labels.filterMap fun
    | .accepted incoming => some incoming
    | _ => none

def madeOf (labels : List Label) : List (Incoming × Addr × Nat) :=
  labels.filterMap fun
    | .burst incoming addr size _ => some (incoming, addr, size)
    | _ => none

theorem acceptedOf_append (first second : List Label) : acceptedOf (first ++ second) = acceptedOf first ++ acceptedOf second :=
  filterMap_append

theorem madeOf_append (first second : List Label) : madeOf (first ++ second) = madeOf first ++ madeOf second :=
  filterMap_append

def asks (id : Nat) : Label → Bool
  | .accepted incoming => incoming.pkt.needsResponse && incoming.pkt.id == id
  | _ => false

def answers (id : Nat) : Label → Bool
  | .responded incoming _ => incoming.pkt.id == id
  | _ => false

def misses (place : Nat × Addr) : Label → Bool
  | .burst incoming addr _ false => !incoming.pkt.isWrite && (incoming.pkt.id, addr) == place
  | _ => false

def serves (place : Nat × Addr) : Label → Bool
  | .served incoming addr => (incoming.pkt.id, addr) == place
  | _ => false

def owes (id : Nat) (burst : Incoming × Addr) : Bool := burst.1.pkt.needsResponse && burst.1.pkt.id == id

def isAt (place : Nat × Addr) (burst : Incoming × Addr) : Bool := (burst.1.pkt.id, burst.2) == place

/-- Packets are cut into their bursts and answered once all are served. -/
structure Story (params : Params) (labels : List Label) (pending : List (Incoming × Addr)) : Prop where
  made : madeOf labels = (acceptedOf labels).flatMap fun incoming => (bursts params incoming).map fun piece => (incoming, piece)
  tiled : ∀ incoming ∈ acceptedOf labels, Tiles params.burstSize.toNat incoming.pkt.addr.toNat
    (incoming.pkt.addr.toNat + incoming.pkt.size) (bursts params incoming)
  answered : ∀ id, labels.countP (asks id) = labels.countP (answers id) + if pending.any (owes id) then 1 else 0
  served : ∀ place, labels.countP (misses place) = labels.countP (serves place) + pending.countP (isAt place)
  inTime : ∀ before incoming due after, labels = before ++ .responded incoming due :: after → incoming.pkt.isWrite = false →
    ∀ addr, before.countP (misses (incoming.pkt.id, addr)) = before.countP (serves (incoming.pkt.id, addr))

variable {labels new : List Label} {pending after : List (Incoming × Addr)} {incoming : Incoming} {due : Tick}

theorem Story.extend (story : Story params labels pending)
    (made : madeOf new = (acceptedOf new).flatMap fun incoming => (bursts params incoming).map fun piece => (incoming, piece))
    (tiled : ∀ incoming ∈ acceptedOf new, Tiles params.burstSize.toNat incoming.pkt.addr.toNat
      (incoming.pkt.addr.toNat + incoming.pkt.size) (bursts params incoming))
    (answered : ∀ id, new.countP (asks id) + (if pending.any (owes id) then 1 else 0) =
      new.countP (answers id) + if after.any (owes id) then 1 else 0)
    (served : ∀ place, new.countP (misses place) + pending.countP (isAt place) = new.countP (serves place) + after.countP (isAt place))
    (inTime : ∀ before incoming due later, new = before ++ .responded incoming due :: later → incoming.pkt.isWrite = false →
      ∀ addr, before.countP (misses (incoming.pkt.id, addr)) + pending.countP (isAt (incoming.pkt.id, addr)) =
        before.countP (serves (incoming.pkt.id, addr))) : Story params (labels ++ new) after where
  made := by
    rw [madeOf_append, acceptedOf_append, flatMap_append, story.made, made]
  tiled incoming member := by
    rw [acceptedOf_append] at member
    exact (mem_append.mp member).elim (story.tiled incoming) (tiled incoming)
  answered id := by
    rw [countP_append, countP_append]
    have := story.answered id
    have := answered id
    omega
  served place := by
    rw [countP_append, countP_append]
    have := story.served place
    have := served place
    omega
  inTime before incoming due later whole isRead addr := by
    obtain ⟨mid, rfl, split⟩ | ⟨mid, old, split⟩ := append_eq_append_iff.mp whole
    · rw [countP_append, countP_append]
      have := story.served (incoming.pkt.id, addr)
      have := inTime mid incoming due later split isRead addr
      omega
    · cases mid with
      | nil =>
        rw [append_nil] at old
        rw [← old]
        have := story.served (incoming.pkt.id, addr)
        have none := inTime [] incoming due later split.symm isRead addr
        simp only [countP_nil, Nat.zero_add] at none
        omega
      | cons _ mid =>
        obtain ⟨rfl, rfl⟩ := List.cons.inj split
        exact story.inTime before incoming due mid old isRead addr

def Quiet : Label → Bool
  | .refused _ | .sentRetry | .drainDone => true
  | _ => false

theorem madeOf_quiet (quiet : ∀ label ∈ new, Quiet label = true) : madeOf new = [] := by
  rw [madeOf, filterMap_eq_nil_iff]
  intro label member
  have := quiet label member
  cases label <;> first | rfl | cases this

theorem Story.quiet (story : Story params labels pending) (quiet : ∀ label ∈ new, Quiet label = true)
    (perm : pending.Perm after) : Story params (labels ++ new) after := by
  have none : ∀ test : Label → Bool, (∀ label, Quiet label = true → test label = false) → new.countP test = 0 := by
    intro test passes
    rw [countP_eq_zero]
    intro label member
    rw [passes label (quiet label member)]
    exact Bool.false_ne_true
  have noAccepted : acceptedOf new = [] := by
    rw [acceptedOf, filterMap_eq_nil_iff]
    intro label member
    have := quiet label member
    cases label <;> first | rfl | cases this
  apply story.extend
  · rw [madeOf_quiet quiet, noAccepted]
    rfl
  · rw [noAccepted]
    intro incoming member
    cases member
  · intro id
    rw [none (asks id) (by intro label isQuiet; cases label <;> first | rfl | cases isQuiet),
      none (answers id) (by intro label isQuiet; cases label <;> first | rfl | cases isQuiet)]
    rw [perm.any_eq]
  · intro place
    rw [none (misses place) (by intro label isQuiet; cases label <;> first | rfl | cases isQuiet),
      none (serves place) (by intro label isQuiet; cases label <;> first | rfl | cases isQuiet), perm.countP_eq]
  · intro before incoming due later split
    have := quiet (.responded incoming due) (by simp [split])
    cases this

theorem response_split {first last before later : List Label} {other : Incoming} {when : Tick} {answer : Bool}
    (early : ∀ id, first.countP (answers id) = 0) (late : ∀ id, last.countP (answers id) = 0)
    (whole : first ++ (if answer then [.responded incoming due] else []) ++ last = before ++ .responded other when :: later) :
    answer = true ∧ before = first ∧ other = incoming := by
  have absent : ∀ part : List Label, (∀ id, part.countP (answers id) = 0) → .responded other when ∉ part := by
    intro part none member
    have counted := countP_eq_zero.mp (none other.pkt.id) _ member
    exact counted (beq_self_eq_true _)
  have notFirst := absent first early
  have notLast := absent last late
  rw [append_assoc] at whole
  obtain ⟨mid, rfl, split⟩ | ⟨mid, rfl, split⟩ := append_eq_append_iff.mp whole
  · cases answer with
    | false =>
      exfalso
      apply notLast
      rw [show last = mid ++ .responded other when :: later from split]
      simp
    | true =>
      cases mid with
      | nil =>
        obtain ⟨same, _⟩ := List.cons.inj split
        cases same
        exact ⟨rfl, append_nil _, rfl⟩
      | cons _ mid =>
        obtain ⟨_, split⟩ := List.cons.inj split
        exfalso
        apply notLast
        rw [show last = mid ++ .responded other when :: later from split]
        simp
  · cases mid with
    | nil =>
      cases answer with
      | false =>
        exfalso
        apply notLast
        rw [show last = .responded other when :: later from split.symm]
        simp
      | true =>
        obtain ⟨same, _⟩ := List.cons.inj split
        cases same
        exact ⟨rfl, (append_nil _).symm, rfl⟩
    | cons =>
      obtain ⟨rfl, _⟩ := List.cons.inj split
      exact absurd (by simp) notFirst

end Labels

section Acceptance
variable {params : Params} {labels : List Label} {pending after : List (Incoming × Addr)} {incoming : Incoming}
  {pieces : List ((Addr × Nat) × Bool)}

def burstLabels (incoming : Incoming) (pieces : List ((Addr × Nat) × Bool)) : List Label :=
  pieces.map fun piece => .burst incoming piece.1.1 piece.1.2 piece.2

def waiting (incoming : Incoming) (pieces : List ((Addr × Nat) × Bool)) : List (Incoming × Addr) :=
  if incoming.pkt.isWrite then [] else (pieces.filter fun piece => !piece.2).map fun piece => (incoming, piece.1.1)

theorem burstLabels_count {test : Label → Bool} (never : ∀ addr size found, test (.burst incoming addr size found) = false)
    (pieces : List ((Addr × Nat) × Bool)) : (burstLabels incoming pieces).countP test = 0 := by
  rw [countP_eq_zero]
  intro label member
  obtain ⟨_, _, rfl⟩ := mem_map.mp member
  rw [never]
  exact Bool.false_ne_true

theorem burstLabels_misses (incoming : Incoming) (pieces : List ((Addr × Nat) × Bool)) (place : Nat × Addr) :
    (burstLabels incoming pieces).countP (misses place) = (waiting incoming pieces).countP (isAt place) := by
  by_cases isWrite : incoming.pkt.isWrite = true
  · rw [waiting, if_pos isWrite, countP_nil, burstLabels_count]
    intro addr size found
    cases found with
    | true => rfl
    | false =>
      show (!incoming.pkt.isWrite && _) = false
      rw [isWrite]
      rfl
  · rw [waiting, if_neg isWrite, burstLabels, countP_map, countP_map, countP_filter]
    apply countP_congr
    intro piece _
    obtain ⟨⟨addr, size⟩, found⟩ := piece
    cases found with
    | true => simp [misses]
    | false => simp [misses, isAt, isWrite]

theorem madeOf_burstLabels (incoming : Incoming) (pieces : List ((Addr × Nat) × Bool)) :
    madeOf (burstLabels incoming pieces) = (pieces.map Prod.fst).map fun piece => (incoming, piece) := by
  induction pieces with
  | nil => rfl
  | cons piece _ ih => exact congrArg (List.cons (incoming, piece.1)) ih

theorem acceptedOf_burstLabels (incoming : Incoming) (pieces : List ((Addr × Nat) × Bool)) :
    acceptedOf (burstLabels incoming pieces) = [] := by
  rw [acceptedOf, filterMap_eq_nil_iff]
  intro label member
  obtain ⟨_, _, rfl⟩ := mem_map.mp member
  rfl

theorem mem_waiting {burst : Incoming × Addr} (member : burst ∈ waiting incoming pieces) : burst.1 = incoming := by
  unfold waiting at member
  split at member
  · cases member
  · obtain ⟨_, _, rfl⟩ := mem_map.mp member
    rfl

def acceptLabels (incoming : Incoming) (pieces : List ((Addr × Nat) × Bool)) (due : Tick) (answer : Bool) : List Label :=
  [.accepted incoming] ++ burstLabels incoming pieces ++ if answer then [.responded incoming due] else []

theorem acceptedOf_acceptLabels (incoming : Incoming) (pieces : List ((Addr × Nat) × Bool)) (due : Tick) (answer : Bool) :
    acceptedOf (acceptLabels incoming pieces due answer) = [incoming] := by
  rw [acceptLabels, acceptedOf_append, acceptedOf_append, acceptedOf_burstLabels]
  cases answer <;> rfl

theorem madeOf_acceptLabels (incoming : Incoming) (pieces : List ((Addr × Nat) × Bool)) (due : Tick) (answer : Bool) :
    madeOf (acceptLabels incoming pieces due answer) = (pieces.map Prod.fst).map fun piece => (incoming, piece) := by
  rw [acceptLabels, madeOf_append, madeOf_append, madeOf_burstLabels]
  cases answer <;> simp [madeOf]

theorem acceptLabels_count (test : Label → Bool) (incoming : Incoming) (pieces : List ((Addr × Nat) × Bool)) (due : Tick) (answer : Bool) :
    (acceptLabels incoming pieces due answer).countP test = (if test (.accepted incoming) then 1 else 0) +
      (burstLabels incoming pieces).countP test + if answer && test (.responded incoming due) then 1 else 0 := by
  rw [acceptLabels, countP_append, countP_append, countP_singleton]
  cases answer with
  | false => rfl
  | true => rw [if_pos rfl, countP_singleton, Bool.true_and]

theorem mem_acceptLabels {due : Tick} {answer found : Bool} {other : Incoming} {size : Nat}
    (member : .burst other addr size found ∈ acceptLabels incoming pieces due answer) :
    other = incoming ∧ ((addr, size), found) ∈ pieces := by
  obtain member | member := mem_append.mp member
  · obtain member | member := mem_append.mp member
    · cases mem_singleton.mp member
    · obtain ⟨_, made, same⟩ := mem_map.mp member
      obtain ⟨rfl, rfl, rfl, rfl⟩ := Label.burst.inj same
      exact ⟨rfl, made⟩
  · split at member
    · cases mem_singleton.mp member
    · cases member

theorem not_owed {id : Nat} (fresh : ∀ burst ∈ pending, burst.1.pkt.id ≠ id) : pending.any (owes id) = false := by
  rw [any_eq_false]
  intro burst member
  simp [owes, fresh burst member]

theorem none_at {id : Nat} (fresh : ∀ burst ∈ pending, burst.1.pkt.id ≠ id) (addr : Addr) : pending.countP (isAt (id, addr)) = 0 := by
  rw [countP_eq_zero]
  intro burst member
  simp [isAt, fresh burst member]

theorem Story.accept (story : Story params labels pending) (due : Tick)
    (tiles : Tiles params.burstSize.toNat incoming.pkt.addr.toNat (incoming.pkt.addr.toNat + incoming.pkt.size) (bursts params incoming))
    (whole : pieces.map Prod.fst = bursts params incoming)
    (fresh : incoming.pkt.isWrite = false → ∀ burst ∈ pending, burst.1.pkt.id ≠ incoming.pkt.id)
    (perm : (waiting incoming pieces ++ pending).Perm after) :
    Story params (labels ++ acceptLabels incoming pieces due (incoming.pkt.needsResponse && (waiting incoming pieces).isEmpty)) after := by
  have noAnswer : ∀ id, ([Label.accepted incoming] ++ burstLabels incoming pieces).countP (answers id) = 0 := by
    intro id
    rw [countP_append, burstLabels_count fun _ _ _ => rfl]
    rfl
  apply story.extend
  · rw [madeOf_acceptLabels, acceptedOf_acceptLabels, whole, flatMap_singleton]
  · rw [acceptedOf_acceptLabels]
    intro other member
    rw [mem_singleton.mp member]
    exact tiles
  · intro id
    rw [acceptLabels_count, acceptLabels_count, burstLabels_count fun _ _ _ => rfl, burstLabels_count fun _ _ _ => rfl]
    rw [← perm.any_eq, any_append]
    by_cases mine : incoming.pkt.id = id
    · subst mine
      cases isWrite : incoming.pkt.isWrite with
      | true =>
        rw [show waiting incoming pieces = [] from if_pos isWrite, any_nil, Bool.false_or]
        simp [asks, answers]
      | false =>
        have absent := not_owed (fresh isWrite)
        cases waits : waiting incoming pieces with
        | nil => simp [absent, asks, answers]
        | cons burst rest =>
          have head : ∀ other ∈ burst :: rest, owes incoming.pkt.id other = incoming.pkt.needsResponse := by
            rw [← waits]
            intro other member
            rw [owes, mem_waiting member, beq_self_eq_true, Bool.and_true]
          have owed : (burst :: rest).any (owes incoming.pkt.id) = incoming.pkt.needsResponse := by
            rw [any_eq, Bool.eq_iff_iff, decide_eq_true_eq]
            constructor
            · intro ⟨other, member, owing⟩
              rwa [head other member] at owing
            · intro needed
              exact ⟨burst, mem_cons_self, (head burst mem_cons_self).trans needed⟩
          simp [absent, owed, asks, answers]
    · have absent : (waiting incoming pieces).any (owes id) = false := by
        rw [any_eq_false]
        intro burst member
        simp [owes, mem_waiting member, mine]
      rw [absent, Bool.false_or]
      simp [mine, asks, answers]
  · intro place
    rw [acceptLabels_count, acceptLabels_count, burstLabels_misses, burstLabels_count fun _ _ _ => rfl, ← perm.countP_eq,
      countP_append]
    simp [misses, serves]
  · intro before other when later split isRead addr
    have nothing : ∀ id, ([] : List Label).countP (answers id) = 0 := fun _ => rfl
    obtain ⟨answer, rfl, rfl⟩ := response_split noAnswer nothing ((append_nil _).trans split)
    obtain ⟨_, empty⟩ := Bool.and_eq_true_iff.mp answer
    rw [countP_append, countP_append, burstLabels_misses, burstLabels_count fun _ _ _ => rfl,
      List.isEmpty_iff.mp empty, none_at (fresh isRead) addr]
    rfl

theorem Story.serve {rest : List (Incoming × Addr)} {quiet : List Label} (story : Story params labels pending) (due : Tick)
    (perm : pending.Perm ((incoming, addr) :: rest)) (silent : ∀ label ∈ quiet, Quiet label = true)
    (same : ∀ burst ∈ rest, burst.1.pkt.id = incoming.pkt.id → burst.1.pkt.needsResponse = incoming.pkt.needsResponse)
    (last : Bool) (isLast : last = true ↔ ∀ burst ∈ rest, burst.1.pkt.id ≠ incoming.pkt.id) :
    Story params (labels ++ ([.served incoming addr] ++
      (if last && incoming.pkt.needsResponse then [.responded incoming due] else []) ++ quiet)) rest := by
  rw [← append_assoc]
  apply Story.quiet _ silent (List.Perm.refl rest)
  have never : ∀ id, [Label.served incoming addr].countP (answers id) = 0 := fun _ => rfl
  have nothing : ∀ id, ([] : List Label).countP (answers id) = 0 := fun _ => rfl
  apply story.extend
  · cases last <;> cases incoming.pkt.needsResponse <;> rfl
  · intro other member
    have none : acceptedOf ([Label.served incoming addr] ++
        if last && incoming.pkt.needsResponse then [Label.responded incoming due] else []) = [] := by
      cases last <;> cases incoming.pkt.needsResponse <;> rfl
    rw [none] at member
    cases member
  · intro id
    rw [perm.any_eq, any_cons]
    by_cases mine : incoming.pkt.id = id
    · subst mine
      cases last with
      | true =>
        rw [not_owed (isLast.mp rfl)]
        cases needed : incoming.pkt.needsResponse <;> simp [owes, asks, answers, needed]
      | false =>
        have more := mt isLast.mpr Bool.false_ne_true
        simp only [not_forall, not_not] at more
        obtain ⟨burst, member, isMine⟩ := more
        have owed : rest.any (owes incoming.pkt.id) = incoming.pkt.needsResponse := by
          rw [any_eq, Bool.eq_iff_iff, decide_eq_true_eq]
          constructor
          · intro ⟨other, member, owing⟩
            obtain ⟨needed, isMine⟩ := Bool.and_eq_true_iff.mp owing
            rwa [same other member (beq_iff_eq.mp isMine)] at needed
          · intro needed
            refine ⟨burst, member, ?_⟩
            rw [owes, isMine, same burst member isMine, needed, beq_self_eq_true]
            rfl
        simp [owed, owes, asks, answers]
    · have absent : owes id (incoming, addr) = false := by
        simp [owes, mine]
      rw [absent, Bool.false_or]
      cases last <;> cases incoming.pkt.needsResponse <;> simp [mine, asks, answers]
  · intro place
    rw [perm.countP_eq, countP_cons]
    cases last <;> cases incoming.pkt.needsResponse <;> simp [misses, serves, isAt, countP_cons, Nat.add_comm]
  · intro before other when later split isRead place
    obtain ⟨answered, rfl, rfl⟩ := response_split never nothing ((append_nil _).trans split)
    obtain ⟨ended, _⟩ := Bool.and_eq_true_iff.mp answered
    have one : pending.countP (isAt (other.pkt.id, place)) = if isAt (other.pkt.id, place) (other, addr) then 1 else 0 := by
      rw [perm.countP_eq, countP_cons, none_at (isLast.mp ended), Nat.zero_add]
    rw [one]
    simp [misses, serves, isAt]

end Acceptance

end ImcGem5.Mem.Dram.Proofs.Accounting
