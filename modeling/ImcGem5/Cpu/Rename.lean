import ImcGem5.Lib.Runs
import ImcGem5.Mem.Packet
import Mathlib.Data.Fin.Tuple.Basic

/-! Register renaming of the out-of-order CPU: the rename maps and history buffers of the
threads, and the free lists that they share. Destinations are taken as flattened. The
scoreboard, the probes, the statistics and what the instruction itself remembers of its
registers are left out. -/

namespace ImcGem5.Cpu.O3
open Lib Mem Function

abbrev InstSeqNum := Nat

inductive RegClassType where
  | int | float | vec | vecElem | vecPred | mat | cc | misc | invalid
  deriving DecidableEq, Repr

structure RegId where
  classValue : RegClassType
  index : Nat
  numPinnedWrites : Nat := 0
  deriving DecidableEq, Repr

def RegId.isRenameable (reg : RegId) : Bool := reg.classValue != .misc && reg.classValue != .invalid

structure PhysRegId where
  classValue : RegClassType
  index : Nat
  deriving DecidableEq, Repr

def invalidPhysRegId : PhysRegId := ⟨.invalid, 0⟩

/-- The classes that have a rename map and a free list, up to CCRegClass. -/
def renamedClasses : List RegClassType := [.int, .float, .vec, .vecElem, .vecPred, .mat, .cc]

/-- A destination counts as one of its type, and is of that type or no register at all. -/
structure DestReg where
  type : RegClassType
  reg : RegId
  typed : reg.classValue = type ∨ reg.classValue = .invalid

structure DynInst where
  seqNum : InstSeqNum
  destRegs : List DestReg

def DynInst.numDestRegs (inst : DynInst) (type : RegClassType) : Nat := inst.destRegs.countP fun dest => dest.type == type

structure RenameHistory where
  instSeqNum : InstSeqNum
  archReg : RegId
  newPhysReg : PhysRegId
  prevPhysReg : PhysRegId
  deriving DecidableEq, Repr

/-- The maps of one thread, from architectural to physical registers. -/
abbrev UnifiedRenameMap := RegClassType → List PhysRegId

abbrev UnifiedFreeList := RegClassType → List PhysRegId

/-- What a thread renames with: its own map and history, the latest entry first, and what it
shares with the other threads. -/
structure Context where
  renameMap : UnifiedRenameMap
  historyBuffer : List RenameHistory := []
  freeList : UnifiedFreeList
  numPinnedWrites : PhysRegId → Nat := fun _ => 0

def UnifiedFreeList.getReg (freeList : UnifiedFreeList) (type : RegClassType) : Except Abort (UnifiedFreeList × PhysRegId) :=
  match freeList type with
  | [] => .error (.assertion "!freeRegs.empty()")
  | reg :: freeRegs => .ok (update freeList type freeRegs, reg)

def UnifiedFreeList.addReg (freeList : UnifiedFreeList) (reg : PhysRegId) : UnifiedFreeList :=
  update freeList reg.classValue (freeList reg.classValue ++ [reg])

namespace UnifiedRenameMap

def lookup (renameMap : UnifiedRenameMap) (archReg : RegId) : Except Abort PhysRegId := do
  match archReg.classValue with
  | .invalid => return invalidPhysRegId
  | .misc => return ⟨.misc, archReg.index⟩
  | _ =>
    require (decide (archReg.index ≤ (renameMap archReg.classValue).length)) "arch_reg.index() <= map.size()"
    match (renameMap archReg.classValue)[archReg.index]? with
    | some reg => return reg
    | none => .error .outOfBounds

/-- SimpleRenameMap::setEntry without its check. -/
def put (renameMap : UnifiedRenameMap) (archReg : RegId) (physReg : PhysRegId) : UnifiedRenameMap :=
  update renameMap archReg.classValue ((renameMap archReg.classValue).set archReg.index physReg)

def setEntry (renameMap : UnifiedRenameMap) (archReg : RegId) (physReg : PhysRegId) : Except Abort UnifiedRenameMap := do
  require (physReg.classValue == archReg.classValue) "phys_reg->is(arch_reg.classValue())"
  if !archReg.isRenameable then
    let current ← renameMap.lookup archReg
    require (physReg == current) "phys_reg == lookup(arch_reg)"
    return renameMap
  else
    require (decide (archReg.index ≤ (renameMap archReg.classValue).length)) "arch_reg.index() <= map.size()"
    if archReg.index < (renameMap archReg.classValue).length then return renameMap.put archReg physReg
    else .error .outOfBounds

end UnifiedRenameMap

/-- SimpleRenameMap::rename, with the new and the previous register. -/
def Context.renameSimple (context : Context) (archReg : RegId) : Except Abort (Context × PhysRegId × PhysRegId) := do
  match (context.renameMap archReg.classValue)[archReg.index]? with
  | none => .error .outOfBounds
  | some prevReg =>
    if archReg.classValue = .invalid then
      require (prevReg.classValue == .invalid) "prev_reg->is(InvalidRegClass)"
      return (context, prevReg, prevReg)
    else if context.numPinnedWrites prevReg > 0 then
      require (archReg.numPinnedWrites == 0) "arch_reg.getNumPinnedWrites() == 0"
      return ({ context with
        numPinnedWrites := update context.numPinnedWrites prevReg (context.numPinnedWrites prevReg - 1) }, prevReg, prevReg)
    else
      let (freeList, renamedReg) ← context.freeList.getReg archReg.classValue
      return ({ context with
        freeList
        renameMap := context.renameMap.put archReg renamedReg
        numPinnedWrites := update context.numPinnedWrites renamedReg archReg.numPinnedWrites }, renamedReg, prevReg)

/-- UnifiedRenameMap::rename. Misc registers are not really renamed. -/
def Context.rename (context : Context) (archReg : RegId) : Except Abort (Context × PhysRegId × PhysRegId) := do
  if !archReg.isRenameable then
    let physReg ← context.renameMap.lookup archReg
    return (context, physReg, physReg)
  else context.renameSimple archReg

def Context.canRename (context : Context) (inst : DynInst) : Bool :=
  renamedClasses.all fun type => decide (inst.numDestRegs type ≤ (context.freeList type).length)

/-- One turn of the loop of renameDestRegs. -/
def Context.renameDestReg (seqNum : InstSeqNum) (context : Context) (dest : DestReg) : Except Abort Context := do
  let (context, newPhysReg, prevPhysReg) ← context.rename dest.reg
  let entry : RenameHistory := { instSeqNum := seqNum, archReg := dest.reg, newPhysReg, prevPhysReg }
  return { context with historyBuffer := entry :: context.historyBuffer }

def Context.renameDestRegs (context : Context) (inst : DynInst) : Except Abort Context :=
  inst.destRegs.foldlM (Context.renameDestReg inst.seqNum) context

/-- The loop of doSquash over the history, from its latest entry. -/
def Context.squashFrom (squashedSeqNum : InstSeqNum) : List RenameHistory → Context → Except Abort Context
  | [], context => .ok { context with historyBuffer := [] }
  | entry :: historyBuffer, context =>
    if entry.instSeqNum > squashedSeqNum then
      if entry.newPhysReg ≠ entry.prevPhysReg then do
        let renameMap ← context.renameMap.setEntry entry.archReg entry.prevPhysReg
        squashFrom squashedSeqNum historyBuffer { context with
          renameMap
          freeList := context.freeList.addReg entry.newPhysReg }
      else squashFrom squashedSeqNum historyBuffer context
    else .ok { context with historyBuffer := entry :: historyBuffer }

def Context.doSquash (context : Context) (squashedSeqNum : InstSeqNum) : Except Abort Context :=
  context.squashFrom squashedSeqNum context.historyBuffer

/-- The loop of removeFromHistory, from the oldest entry. -/
def removeFrom (instSeqNum : InstSeqNum) : List RenameHistory → UnifiedFreeList → List RenameHistory × UnifiedFreeList
  | [], freeList => ([], freeList)
  | entry :: newer, freeList =>
    if entry.instSeqNum ≤ instSeqNum then
      removeFrom instSeqNum newer (if entry.newPhysReg ≠ entry.prevPhysReg then freeList.addReg entry.prevPhysReg else freeList)
    else (entry :: newer, freeList)

def Context.removeFromHistory (context : Context) (instSeqNum : InstSeqNum) : Context :=
  let (oldestFirst, freeList) := removeFrom instSeqNum context.historyBuffer.reverse context.freeList
  { context with
    historyBuffer := oldestFirst.reverse
    freeList }

structure Thread where
  renameMap : UnifiedRenameMap
  historyBuffer : List RenameHistory := []
  /-- No sequence number before this comes again. -/
  nextSeqNum : InstSeqNum := 0
  /-- The last sequence number that was committed. -/
  committed : InstSeqNum := 0

structure Rename (n : Nat) where
  threads : Fin n → Thread
  freeList : UnifiedFreeList
  numPinnedWrites : PhysRegId → Nat := fun _ => 0

inductive RenameEvent (n : Nat) where
  | renameDestRegs (tid : Fin n) (inst : DynInst)
  | removeFromHistory (tid : Fin n) (instSeqNum : InstSeqNum)
  | doSquash (tid : Fin n) (squashedSeqNum : InstSeqNum)

/-- The map of a thread after it has renamed an instruction, or has squashed. -/
inductive RenameLabel (n : Nat) where
  | renamed (tid : Fin n) (seqNum : InstSeqNum) (renameMap : UnifiedRenameMap)
  | squashed (tid : Fin n) (seqNum : InstSeqNum) (renameMap : UnifiedRenameMap)

namespace Rename
variable {n : Nat}

def context (rename : Rename n) (tid : Fin n) : Context where
  renameMap := (rename.threads tid).renameMap
  historyBuffer := (rename.threads tid).historyBuffer
  freeList := rename.freeList
  numPinnedWrites := rename.numPinnedWrites

def withContext (rename : Rename n) (tid : Fin n) (context : Context) (nextSeqNum committed : InstSeqNum) : Rename n where
  threads := update rename.threads tid {
    renameMap := context.renameMap
    historyBuffer := context.historyBuffer
    nextSeqNum
    committed }
  freeList := context.freeList
  numPinnedWrites := context.numPinnedWrites

def step : Step (Rename n) (RenameEvent n) (RenameLabel n) Abort := fun rename event =>
  match event with
  | .renameDestRegs tid inst => do
    let context ← (rename.context tid).renameDestRegs inst
    return (rename.withContext tid context (inst.seqNum + 1) (rename.threads tid).committed,
      [.renamed tid inst.seqNum context.renameMap])
  | .removeFromHistory tid instSeqNum =>
    .ok (rename.withContext tid ((rename.context tid).removeFromHistory instSeqNum) (rename.threads tid).nextSeqNum
      (max (rename.threads tid).committed instSeqNum), [])
  | .doSquash tid squashedSeqNum => do
    let context ← (rename.context tid).doSquash squashedSeqNum
    return (rename.withContext tid context (rename.threads tid).nextSeqNum (rename.threads tid).committed,
      [.squashed tid squashedSeqNum context.renameMap])

end Rename

/-- How many registers of each class there are, of one thread and, where it is a parameter,
of the CPU. -/
structure RegFileParams where
  numRegs : RegClassType → Nat
  numPhysRegs : RegClassType → Nat

namespace RegFileParams

/-- The sizes of PhysRegFile. The vector elements are those of the vector registers. -/
def numPhysicalRegs (params : RegFileParams) (type : RegClassType) : Nat :=
  if type = .vecElem then params.numPhysRegs .vec * (params.numRegs .vecElem / params.numRegs .vec)
  else params.numPhysRegs type

def initFreeList (params : RegFileParams) : UnifiedFreeList := fun type =>
  if type ∈ renamedClasses then (List.range (params.numPhysicalRegs type)).map (PhysRegId.mk type) else []

end RegFileParams

/-- The registers that the constructor of the CPU takes from a free list for a map. -/
def takeRegs : Nat → List PhysRegId → Except Abort (List PhysRegId × List PhysRegId)
  | 0, freeRegs => .ok ([], freeRegs)
  | _ + 1, [] => .error (.assertion "!freeRegs.empty()")
  | count + 1, reg :: freeRegs => do
    let (regs, freeRegs) ← takeRegs count freeRegs
    return (reg :: regs, freeRegs)

/-- The map of one thread, class after class. -/
def initMap (numRegs : RegClassType → Nat) :
    List RegClassType → UnifiedRenameMap × UnifiedFreeList → Except Abort (UnifiedRenameMap × UnifiedFreeList)
  | [], built => .ok built
  | type :: types, (renameMap, freeList) => do
    let (regs, freeRegs) ← takeRegs (numRegs type) (freeList type)
    initMap numRegs types (update renameMap type regs, update freeList type freeRegs)

/-- The maps of the threads, one after the other. -/
def initMaps (numRegs : RegClassType → Nat) (freeList : UnifiedFreeList) :
    (n : Nat) → Except Abort ((Fin n → UnifiedRenameMap) × UnifiedFreeList)
  | 0 => .ok (Fin.elim0, freeList)
  | n + 1 => do
    let (renameMaps, freeList) ← initMaps numRegs freeList n
    let (renameMap, freeList) ← initMap numRegs renamedClasses (fun _ => [], freeList)
    return (Fin.lastCases renameMap renameMaps, freeList)

/-- The constructor of the CPU, as far as its registers go. -/
def Rename.init (params : RegFileParams) (n : Nat) : Except Abort (Rename n) := do
  if params.numRegs .vec = 0 then .error .divideError
  else
    require (decide (n ≠ 0)) "numThreads"
    require (decide (params.numPhysRegs .int ≥ n * params.numRegs .int)) "params.numPhysIntRegs >= numThreads * numRegs()"
    require (decide (params.numPhysRegs .float ≥ n * params.numRegs .float)) "params.numPhysFloatRegs >= numThreads * numRegs()"
    require (decide (params.numPhysRegs .vec ≥ n * params.numRegs .vec)) "params.numPhysVecRegs >= numThreads * numRegs()"
    require (decide (params.numPhysRegs .vecPred ≥ n * params.numRegs .vecPred)) "params.numPhysVecPredRegs >= numThreads * numRegs()"
    require (decide (params.numPhysRegs .mat ≥ n * params.numRegs .mat)) "params.numPhysMatRegs >= numThreads * numRegs()"
    require (decide (params.numPhysRegs .cc ≥ n * params.numRegs .cc)) "params.numPhysCCRegs >= numThreads * numRegs()"
    let (renameMaps, freeList) ← initMaps params.numRegs params.initFreeList n
    return { threads := fun tid => { renameMap := renameMaps tid }, freeList }

end ImcGem5.Cpu.O3
