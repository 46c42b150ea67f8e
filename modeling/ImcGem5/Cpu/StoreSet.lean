import ImcGem5.Cpu.Rename
import ImcGem5.Lib.Heap

/-! The store sets that predict which loads depend on which stores. The threads of calls are left
out, since nothing looks at them. -/

namespace ImcGem5.Cpu.O3
open Lib Mem Function

/-- The sizes of the tables are positive ints. Whether they are powers of two is only asked by the
constructor, and not by init(). -/
structure StoreSetParams where
  clearPeriod : BitVec 64
  SSITSize : Nat
  LFSTSize : Nat
  SSITSized : 0 < SSITSize ∧ SSITSize < 2 ^ 31
  LFSTSized : 0 < LFSTSize ∧ LFSTSize < 2 ^ 31

/-- An index into the last fetched store table. -/
abbrev SSID (params : StoreSetParams) := Fin params.LFSTSize

/-- `storeList` is in the order of its iterators, with the youngest store first. -/
structure StoreSet (params : StoreSetParams) where
  SSIT : Fin params.SSITSize → SSID params
  validSSIT : Fin params.SSITSize → Bool
  LFST : SSID params → InstSeqNum
  validLFST : SSID params → Bool
  storeList : List (InstSeqNum × SSID params) := []
  memOpsPred : BitVec 32 := 0

/-- `storeList[seqNum] = ssid` -/
def assignStore {α : Type} (seqNum : InstSeqNum) (ssid : α) : List (InstSeqNum × α) → List (InstSeqNum × α)
  | [] => [(seqNum, ssid)]
  | first :: rest =>
    if seqNum < first.1 then first :: assignStore seqNum ssid rest
    else if first.1 = seqNum then (seqNum, ssid) :: rest
    else (seqNum, ssid) :: first :: rest

namespace StoreSet

variable {params : StoreSetParams}

def init (params : StoreSetParams) : StoreSet params where
  SSIT _ := ⟨0, params.LFSTSized.1⟩
  validSSIT _ := false
  LFST _ := 0
  validLFST _ := false

/-- `(PC >> offsetBits) & indexMask` -/
def calcIndex (params : StoreSetParams) (PC : Addr) : Fin params.SSITSize where
  val := ((PC >>> 2) &&& BitVec.ofNat 64 (params.SSITSize - 1)).toNat
  isLt := by
    have sized := params.SSITSized.1
    rw [BitVec.toNat_and, BitVec.toNat_ofNat]
    have masked := (@Nat.and_le_right (PC >>> 2).toNat ((params.SSITSize - 1) % 2 ^ 64)).trans (Nat.mod_le _ _)
    omega

def calcSSID (params : StoreSetParams) (PC : Addr) : SSID params :=
  ⟨(PC ^^^ (PC >>> 10)).toNat % params.LFSTSize, Nat.mod_lt _ params.LFSTSized.1⟩

def violation (set : StoreSet params) (storePC loadPC : Addr) : StoreSet params :=
  let loadIndex := calcIndex params loadPC
  let storeIndex := calcIndex params storePC
  if !set.validSSIT loadIndex && !set.validSSIT storeIndex then
    let newSet := calcSSID params loadPC
    { set with
      validSSIT := update (update set.validSSIT loadIndex true) storeIndex true
      SSIT := update (update set.SSIT loadIndex newSet) storeIndex newSet }
  else if set.validSSIT loadIndex && !set.validSSIT storeIndex then
    { set with
      validSSIT := update set.validSSIT storeIndex true
      SSIT := update set.SSIT storeIndex (set.SSIT loadIndex) }
  else if !set.validSSIT loadIndex && set.validSSIT storeIndex then
    { set with
      validSSIT := update set.validSSIT loadIndex true
      SSIT := update set.SSIT loadIndex (set.SSIT storeIndex) }
  else if set.SSIT loadIndex < set.SSIT storeIndex then
    { set with SSIT := update set.SSIT storeIndex (set.SSIT loadIndex) }
  else { set with SSIT := update set.SSIT loadIndex (set.SSIT storeIndex) }

def clear (set : StoreSet params) : StoreSet params :=
  { set with validSSIT := fun _ => false, validLFST := fun _ => false, storeList := [] }

/-- The count is an int, which wraps around here, and is compared as a uint64_t. -/
def checkClear (set : StoreSet params) : StoreSet params :=
  if params.clearPeriod.ult ((set.memOpsPred + 1).signExtend 64) then { set with memOpsPred := 0 }.clear
  else { set with memOpsPred := set.memOpsPred + 1 }

def insertLoad (set : StoreSet params) : StoreSet params := set.checkClear

def insertStore (set : StoreSet params) (storePC : Addr) (storeSeqNum : InstSeqNum) : StoreSet params :=
  let index := calcIndex params storePC
  let set := set.checkClear
  if !set.validSSIT index then set
  else
    let storeSSID := set.SSIT index
    { set with
      LFST := update set.LFST storeSSID storeSeqNum
      validLFST := update set.validLFST storeSSID true
      storeList := assignStore storeSeqNum storeSSID set.storeList }

def issued (set : StoreSet params) (issuedPC : Addr) (issuedSeqNum : InstSeqNum) (isStore : Bool) : StoreSet params :=
  if !isStore then set
  else
    let index := calcIndex params issuedPC
    let set := { set with storeList := set.storeList.filter fun entry => entry.1 != issuedSeqNum }
    if !set.validSSIT index then set
    else
      let storeSSID := set.SSIT index
      if set.validLFST storeSSID && set.LFST storeSSID == issuedSeqNum then
        { set with validLFST := update set.validLFST storeSSID false }
      else set

/-- One turn of the loop of squash, unless the loop ends. -/
def squashTurn (set : StoreSet params) (squashedNum : InstSeqNum) : Option (StoreSet params) :=
  match set.storeList with
  | [] => none
  | (seqNum, idx) :: rest =>
    if seqNum ≤ squashedNum then none
    else
      let younger := decide (squashedNum < set.LFST idx)
      if set.validLFST idx && younger then
        some { set with validLFST := update set.validLFST idx false, storeList := rest }
      else if !set.validLFST idx && younger then some { set with storeList := rest }
      else some set

/-- The loop, if it ends within some turns. -/
def squash (squashedNum : InstSeqNum) : Nat → StoreSet params → Option (StoreSet params)
  | 0, set => if (set.squashTurn squashedNum).isNone then some set else none
  | turns + 1, set =>
    match set.squashTurn squashedNum with
    | none => some set
    | some next => squash squashedNum turns next

end StoreSet

inductive StoreSetOp where
  | insertStore (storePC : Addr) (storeSeqNum : InstSeqNum)
  | insertLoad (loadPC : Addr) (loadSeqNum : InstSeqNum)
  | issued (issuedPC : Addr) (issuedSeqNum : InstSeqNum) (isStore : Bool)
  | violation (storePC loadPC : Addr)
  | checkClear
  | squash (squashedNum : InstSeqNum)
  deriving DecidableEq, Repr

/-- One call, where a loop has some turns to end in. -/
def StoreSet.step {params : StoreSetParams} (turns : Nat) : Step (StoreSet params) StoreSetOp Unit Fault
  | set, .insertStore storePC storeSeqNum => .ok (set.insertStore storePC storeSeqNum, [])
  | set, .insertLoad _ _ => .ok (set.insertLoad, [])
  | set, .issued issuedPC issuedSeqNum isStore => .ok (set.issued issuedPC issuedSeqNum isStore, [])
  | set, .violation storePC loadPC => .ok (set.violation storePC loadPC, [])
  | set, .checkClear => .ok (set.checkClear, [])
  | set, .squash squashedNum =>
    match set.squash squashedNum turns with
    | some next => .ok (next, [])
    | none => .error .stuck

end ImcGem5.Cpu.O3
