import ImcGem5.Proofs.Privilege

/-! Interrupts against the privileged specification. The mask of the code asks for the
delegation of some interrupts in some modes only. -/

namespace ImcGem5.Riscv.Proofs.Interrupts
open Lib Mem Proofs.Privilege List BitVec Hart

def machineInterrupts : List Nat := [INT_EXT_MACHINE, INT_SOFTWARE_MACHINE, INT_TIMER_MACHINE]
def supervisorInterrupts : List Nat := [INT_EXT_SUPER, INT_SOFTWARE_SUPER, INT_TIMER_SUPER]
def userInterrupts : List Nat := [INT_EXT_USER, INT_SOFTWARE_USER, INT_TIMER_USER]

def delegated (hart : Hart) (i : Nat) : Bool := (hart.miscRegFile .mideleg).getLsbD i

def enabled (hart : Hart) (i : Nat) : Bool :=
  if delegated hart i then hart.miscRegFile .prv = PRV_U ∨ (hart.miscRegFile .prv = PRV_S ∧ (statusOf hart).sie = 1)
  else hart.miscRegFile .prv ≠ PRV_M ∨ (statusOf hart).mie = 1

def opens (hart : Hart) (i : Nat) : Bool :=
  if hart.miscRegFile .prv = PRV_U then true
  else if hart.miscRegFile .prv = PRV_S then
    if i ∈ machineInterrupts then !delegated hart i || (statusOf hart).sie = 1 else (statusOf hart).sie = 1
  else (statusOf hart).mie = 1 ∧ i ∈ machineInterrupts

def Pending (hart : Hart) (mask : Hart → Nat → Bool) : Prop :=
  ∃ i ∈ machineInterrupts ++ supervisorInterrupts, hart.checkInterrupt i = true ∧ mask hart i = true

/-- No non-maskable and no user-level interrupt is pending, and nothing is delegated to
users. -/
structure Plain (hart : Hart) : Prop where
  valid : ValidPrv (hart.miscRegFile .prv)
  sideleg : hart.miscRegFile .sideleg = 0
  nmi : hart.checkNonMaskableInterrupt = false
  users : ∀ i ∈ userInterrupts, hart.ip.getLsbD i = false

/-- What the specification says of a hart: interrupts are taken exactly when one is
pending and enabled, and the chosen one is handled where it is delegated to. -/
def Follows (hart : Hart) : Prop :=
  ∃ check middle, hart.checkInterrupts = .ok (check, middle) ∧ (check = true ↔ Pending hart enabled) ∧
    (check = true → ∃ fault last, middle.getInterrupt = .ok (some fault, last) ∧ fault.faultType = .interrupt ∧
      (last.invoke fault).miscRegFile .prv = (if delegated hart fault.code then PRV_S else PRV_M) ∧
      hart.miscRegFile .prv ≤ (last.invoke fault).miscRegFile .prv)

variable {hart : Hart}

theorem interruptMask_bits (mei mti msi sei sti ssi uei uti usi : Bool) (i : Nat) :
    (interruptMask mei mti msi sei sti ssi uei uti usi).getLsbD i =
      [usi, ssi, false, msi, uti, sti, false, mti, uei, sei, false, mei].getD i false :=
  getLsbD_ofBoolListLE

/-- The mask has no bits but those of the interrupts, and for those that can be pending
it has the bits that `opens` says. -/
structure Masks (hart : Hart) (mask : BitVec NumInterruptTypes) : Prop where
  gaps : ∀ i, i ∉ Hart.interruptOrder → mask.getLsbD i = false
  opens : ∀ i ∈ machineInterrupts ++ supervisorInterrupts, mask.getLsbD i = opens hart i

theorem interruptMask_gaps (mei mti msi sei sti ssi uei uti usi : Bool) {i : Nat} (gap : i ∉ interruptOrder) :
    (interruptMask mei mti msi sei sti ssi uei uti usi).getLsbD i = false := by
  rw [interruptMask_bits]
  by_cases inside : i < 12
  · have which : i = 2 ∨ i = 6 ∨ i = 10 := by
      simp only [interruptOrder, INT_EXT_MACHINE, INT_SOFTWARE_MACHINE, INT_TIMER_MACHINE, INT_EXT_SUPER, INT_SOFTWARE_SUPER,
        INT_TIMER_SUPER, INT_EXT_USER, INT_SOFTWARE_USER, INT_TIMER_USER, mem_cons, not_mem_nil, or_false] at gap
      omega
    obtain rfl | rfl | rfl := which <;> rfl
  · rw [getD_eq_default _ _ (by simp; omega)]

theorem readStatus_sie (hart : Hart) : hart.readStatus.1.sie = (statusOf hart).sie := setSd_extract _ _ _ (by decide)

theorem readStatus_mie (hart : Hart) : hart.readStatus.1.mie = (statusOf hart).mie := setSd_extract _ _ _ (by decide)

theorem interrupt_cases {i : Nat} (member : i ∈ machineInterrupts ++ supervisorInterrupts) :
    i = 11 ∨ i = 3 ∨ i = 7 ∨ i = 9 ∨ i = 1 ∨ i = 5 := by
  simpa [machineInterrupts, supervisorInterrupts, INT_EXT_MACHINE, INT_SOFTWARE_MACHINE, INT_TIMER_MACHINE, INT_EXT_SUPER,
    INT_SOFTWARE_SUPER, INT_TIMER_SUPER] using member

theorem maskBit_eq (deleg : RegVal) (on : Bool) (num : Nat) : maskBit deleg on num = (!deleg.getLsbD num || on) := by
  unfold maskBit
  cases deleg.getLsbD num with
  | false => rfl
  | true => rfl

theorem globalMask_masks (plain : Plain hart) : ∃ mask, hart.globalMask = .ok (mask, hart.readStatus.2) ∧ Masks hart mask := by
  have prv : hart.readStatus.2.miscRegFile .prv = hart.miscRegFile .prv := readStatus_other hart (by decide)
  have mideleg : hart.readStatus.2.miscRegFile .mideleg = hart.miscRegFile .mideleg := readStatus_other hart (by decide)
  have sideleg : hart.readStatus.2.miscRegFile .sideleg = 0 := (readStatus_other hart (by decide)).trans plain.sideleg
  unfold globalMask
  dsimp only
  rw [prv, mideleg, sideleg, readStatus_sie, readStatus_mie]
  have undelegated : ∀ on num, maskBit 0 on num = true := by
    intro on num
    rw [maskBit_eq]
    simp
  obtain user | supervisor | machine := plain.valid
  · rw [if_pos user]
    refine ⟨_, rfl, ⟨fun i gap => interruptMask_gaps _ _ _ _ _ _ _ _ _ gap, ?_⟩⟩
    intro i member
    rw [interruptMask_bits]
    unfold opens
    rw [if_pos user]
    simp only [undelegated]
    obtain rfl | rfl | rfl | rfl | rfl | rfl := interrupt_cases member <;> rfl
  · rw [if_neg (by rw [supervisor]; decide), if_pos supervisor]
    refine ⟨_, rfl, ⟨fun i gap => interruptMask_gaps _ _ _ _ _ _ _ _ _ gap, ?_⟩⟩
    intro i member
    rw [interruptMask_bits]
    unfold opens
    rw [supervisor, if_neg (by decide), if_pos rfl]
    obtain rfl | rfl | rfl | rfl | rfl | rfl := interrupt_cases member
    · exact maskBit_eq (hart.miscRegFile .mideleg) _ 11
    · exact maskBit_eq (hart.miscRegFile .mideleg) _ 3
    · exact maskBit_eq (hart.miscRegFile .mideleg) _ 7
    · rfl
    · rfl
    · rfl
  · rw [if_neg (by rw [machine]; decide), if_neg (by rw [machine]; decide), if_pos machine]
    refine ⟨_, rfl, ⟨fun i gap => interruptMask_gaps _ _ _ _ _ _ _ _ _ gap, ?_⟩⟩
    intro i member
    rw [interruptMask_bits]
    unfold opens
    rw [machine, if_neg (by decide), if_neg (by decide)]
    obtain rfl | rfl | rfl | rfl | rfl | rfl := interrupt_cases member <;>
      simp [machineInterrupts, INT_EXT_MACHINE, INT_SOFTWARE_MACHINE, INT_TIMER_MACHINE]

def chosen (hart : Hart) : Option Nat :=
  (machineInterrupts ++ supervisorInterrupts).find? fun i => hart.checkInterrupt i && opens hart i

theorem chosen_isSome : (chosen hart).isSome = true ↔ Pending hart opens := by
  unfold chosen Pending
  rw [find?_isSome]
  simp only [Bool.and_eq_true]

theorem find_congr {p q : Nat → Bool} {list : List Nat} (same : ∀ i ∈ list, p i = q i) : list.find? p = list.find? q := by
  induction list with
  | nil => rfl
  | cons i rest ih =>
    rw [find?_cons, find?_cons, same i mem_cons_self, ih (fun j member => same j (mem_cons_of_mem _ member))]

theorem find_interrupt (plain : Plain hart) {mask : BitVec NumInterruptTypes} (masks : Masks hart mask) :
    (Hart.interruptOrder.find? fun id => hart.checkInterrupt id && mask.getLsbD id) = chosen hart := by
  have order : interruptOrder = (machineInterrupts ++ supervisorInterrupts) ++ userInterrupts := rfl
  have users : (userInterrupts.find? fun id => hart.checkInterrupt id && mask.getLsbD id) = none := by
    rw [find?_eq_none]
    intro i member
    unfold checkInterrupt
    rw [plain.users i member, Bool.false_and, Bool.false_and]
    exact Bool.false_ne_true
  have others : ((machineInterrupts ++ supervisorInterrupts).find? fun id => hart.checkInterrupt id && mask.getLsbD id) = chosen hart := by
    apply find_congr
    intro i member
    rw [masks.opens i member]
  rw [order, find?_append, users, Option.or_none, others]

theorem ne_zero_iff {width : Nat} (word : BitVec width) : word ≠ BitVec.ofNat width 0 ↔ ∃ i, word.getLsbD i = true := by
  constructor
  · intro nonzero
    by_contra none
    apply nonzero
    apply eq_of_getLsbD_eq
    intro i _
    rw [getLsbD_zero]
    exact Bool.eq_false_of_not_eq_true fun bit => none ⟨i, bit⟩
  · intro ⟨i, bit⟩ zero
    rw [zero, getLsbD_zero] at bit
    cases bit

section

variable (plain : Plain hart)
include plain

theorem pending_mask {mask : BitVec NumInterruptTypes} (masks : Masks hart mask) :
    hart.ip &&& hart.ie &&& mask ≠ 0 ↔ (chosen hart).isSome = true := by
  refine (ne_zero_iff _).trans ?_
  rw [← find_interrupt plain masks, find?_isSome]
  constructor
  · intro ⟨i, bit⟩
    rw [getLsbD_and, getLsbD_and] at bit
    have both := Bool.and_eq_true_iff.mp bit
    refine ⟨i, ?_, bit⟩
    by_contra gap
    rw [masks.gaps i gap] at both
    cases both.2
  · intro ⟨i, _, bit⟩
    refine ⟨i, ?_⟩
    rw [getLsbD_and, getLsbD_and]
    exact bit

theorem checkInterrupts_eq : hart.checkInterrupts = .ok ((chosen hart).isSome, hart.readStatus.2) := by
  obtain ⟨mask, masked, masks⟩ := globalMask_masks plain
  unfold checkInterrupts
  rw [plain.nmi, bind_of_ok masked]
  have pending := pending_mask plain masks
  change Except.ok (decide (hart.ip &&& hart.ie &&& mask ≠ 0), hart.readStatus.2) = _
  rw [Bool.eq_iff_iff.mpr (decide_eq_true_iff.trans pending)]

theorem getInterrupt_eq (taken : (chosen hart).isSome = true) :
    hart.readStatus.2.getInterrupt = .ok ((chosen hart).map fun id => ⟨.interrupt, id, 0⟩, hart.readStatus.2) := by
  obtain ⟨mask, masked, masks⟩ := globalMask_masks plain
  have check := checkInterrupts_eq plain
  have again : hart.readStatus.2.checkInterrupts = .ok (true, hart.readStatus.2) := by
    obtain ⟨_, _, checked, same, _⟩ := checkInterrupts_total plain.valid
    rw [check, taken] at checked same
    cases checked
    exact same
  have nmi : hart.readStatus.2.checkNonMaskableInterrupt = false := plain.nmi
  have found : hart.readStatus.2.firstInterrupt mask = (chosen hart).map fun id => ⟨.interrupt, id, 0⟩ := by
    rw [← find_interrupt plain masks]
    rfl
  unfold getInterrupt
  rw [bind_of_ok again]
  dsimp only
  rw [nmi, (globalMask_again hart).trans masked]
  change Except.ok (hart.readStatus.2.firstInterrupt mask, hart.readStatus.2) = _
  rw [found]

theorem invoke_prv (id : Nat) :
    (hart.readStatus.2.invoke ⟨.interrupt, id, 0⟩).miscRegFile .prv =
      if hart.miscRegFile .prv ≠ PRV_M ∧ delegated hart id then PRV_S else PRV_M := by
  rw [(invoke_traps hart.readStatus.2 ⟨.interrupt, id, 0⟩).prv]
  change (delegate (hart.miscRegFile .prv) (hart.miscRegFile .mideleg) (hart.miscRegFile .sideleg) id).encoding = _
  have none : (hart.miscRegFile .sideleg).getLsbD id = false := by
    rw [plain.sideleg]
    exact getLsbD_zero
  unfold delegate
  rw [none, if_neg (by simp)]
  unfold delegated
  split
  · rfl
  · rfl

theorem handled_iff (id : Nat) :
    ((hart.readStatus.2.invoke ⟨.interrupt, id, 0⟩).miscRegFile .prv = (if delegated hart id then PRV_S else PRV_M) ∧
      hart.miscRegFile .prv ≤ (hart.readStatus.2.invoke ⟨.interrupt, id, 0⟩).miscRegFile .prv) ↔
    (hart.miscRegFile .prv = PRV_M → delegated hart id = false) := by
  rw [invoke_prv plain id]
  obtain user | supervisor | machine := plain.valid
  · rw [user]
    cases delegated hart id <;> decide
  · rw [supervisor]
    cases delegated hart id <;> decide
  · rw [machine]
    cases delegated hart id <;> decide

theorem follows_iff : Follows hart ↔
    (Pending hart opens ↔ Pending hart enabled) ∧
      (hart.miscRegFile .prv = PRV_M → ∀ id, chosen hart = some id → delegated hart id = false) := by
  have check := checkInterrupts_eq plain
  constructor
  · intro ⟨holds, middle, checked, exactly, handled⟩
    rw [check] at checked
    cases checked
    refine ⟨chosen_isSome.symm.trans exactly, ?_⟩
    intro machine id choice
    have taken : (chosen hart).isSome = true := by
      rw [choice]
      rfl
    obtain ⟨_, _, got, _, target, above⟩ := handled taken
    rw [getInterrupt_eq plain taken, choice] at got
    cases got
    exact (handled_iff plain id).mp ⟨target, above⟩ machine
  · intro ⟨exactly, handled⟩
    refine ⟨_, _, check, chosen_isSome.trans exactly, ?_⟩
    intro taken
    obtain ⟨id, choice⟩ := Option.isSome_iff_exists.mp taken
    have got := getInterrupt_eq plain taken
    rw [choice] at got
    obtain ⟨target, above⟩ := (handled_iff plain id).mpr (fun machine => handled machine id choice)
    exact ⟨_, _, got, rfl, target, above⟩

end

def Undelegated (hart : Hart) (list : List Nat) : Prop := ∃ i ∈ list, hart.checkInterrupt i = true ∧ delegated hart i = false

def firstMachine (hart : Hart) : Option Nat := machineInterrupts.find? hart.checkInterrupt

/-- When the mask does what the specification says. In supervisor mode with interrupts
off, an interrupt of the supervisor's own level that is not delegated needs another one
of machine level; in machine mode with interrupts on, the first machine-level one must
not be delegated, and without one no lower one may be left undelegated. -/
structure Agrees (hart : Hart) : Prop where
  supervisor : hart.miscRegFile .prv = PRV_S → (statusOf hart).sie = 0 → Undelegated hart supervisorInterrupts →
    Undelegated hart machineInterrupts
  first : hart.miscRegFile .prv = PRV_M → (statusOf hart).mie = 1 → ∀ id, firstMachine hart = some id → delegated hart id = false
  none : hart.miscRegFile .prv = PRV_M → (statusOf hart).mie = 1 → firstMachine hart = none → ¬ Undelegated hart supervisorInterrupts

theorem pending_undelegated {mask : Hart → Nat → Bool} (same : ∀ i, mask hart i = !delegated hart i) :
    Pending hart mask ↔ Undelegated hart machineInterrupts ∨ Undelegated hart supervisorInterrupts := by
  unfold Pending Undelegated
  simp only [same, Bool.not_eq_true', mem_append, or_and_right, exists_or]

theorem pending_never {mask : Hart → Nat → Bool} (same : ∀ i, mask hart i = false) : ¬ Pending hart mask := by
  intro ⟨i, _, _, on⟩
  rw [same] at on
  cases on

theorem pending_congr {first second : Hart → Nat → Bool} (same : ∀ i, first hart i = second hart i) :
    Pending hart first ↔ Pending hart second := by
  unfold Pending
  simp only [same]

theorem bit_cases (bit : BitVec 1) : bit = 0 ∨ bit = 1 := by
  revert bit
  decide

theorem user_agrees (user : hart.miscRegFile .prv = PRV_U) : (Pending hart opens ↔ Pending hart enabled) ∧ Agrees hart := by
  refine ⟨pending_congr ?_, ⟨?_, ?_, ?_⟩⟩
  · intro i
    unfold opens enabled
    rw [if_pos user, user]
    cases delegated hart i <;> simp [PRV_U, PRV_M]
  · intro supervisor
    rw [user] at supervisor
    exact absurd supervisor (by decide)
  · intro machine
    rw [user] at machine
    exact absurd machine (by decide)
  · intro machine
    rw [user] at machine
    exact absurd machine (by decide)

theorem supervisor_agrees (supervisor : hart.miscRegFile .prv = PRV_S) : (Pending hart opens ↔ Pending hart enabled) ↔ Agrees hart := by
  have notMachine : hart.miscRegFile .prv ≠ PRV_M := by
    rw [supervisor]
    decide
  have notUser : hart.miscRegFile .prv ≠ PRV_U := by
    rw [supervisor]
    decide
  obtain off | on := bit_cases (statusOf hart).sie
  · have asks : Pending hart enabled ↔ Undelegated hart machineInterrupts ∨ Undelegated hart supervisorInterrupts := by
      apply pending_undelegated
      intro i
      unfold enabled
      cases delegated hart i <;> simp [notMachine, notUser, off]
    have takes : Pending hart opens ↔ Undelegated hart machineInterrupts := by
      unfold Pending Undelegated
      simp only [opens, if_neg notUser, if_pos supervisor, off, mem_append]
      constructor
      · intro ⟨i, _, pending, mask⟩
        split at mask
        next member => exact ⟨i, member, pending, by simpa using mask⟩
        next => cases mask
      · intro ⟨i, member, pending, free⟩
        refine ⟨i, .inl member, pending, ?_⟩
        rw [if_pos member, free]
        rfl
    rw [asks, takes]
    constructor
    · intro same
      exact ⟨fun _ _ lower => same.mpr (.inr lower), fun machine => absurd machine notMachine, fun machine => absurd machine notMachine⟩
    · intro agrees
      refine ⟨.inl, ?_⟩
      intro some
      obtain machine | lower := some
      · exact machine
      · exact agrees.supervisor supervisor off lower
  · have same : Pending hart opens ↔ Pending hart enabled := by
      apply pending_congr
      intro i
      unfold opens enabled
      rw [if_neg notUser, if_pos supervisor]
      cases delegated hart i <;> simp [supervisor, on, PRV_S, PRV_M]
    refine ⟨fun _ => ⟨?_, fun machine => absurd machine notMachine, fun machine => absurd machine notMachine⟩, fun _ => same⟩
    intro _ off
    rw [on] at off
    exact absurd off (by decide)

theorem chosen_machine (takes : ∀ i, opens hart i = decide (i ∈ machineInterrupts)) : chosen hart = firstMachine hart := by
  have lower : (supervisorInterrupts.find? fun i => hart.checkInterrupt i && opens hart i) = none := by
    rw [find?_eq_none]
    intro i member
    have apart : i ∉ machineInterrupts := by
      revert i
      decide
    rw [takes, decide_eq_false apart, Bool.and_false]
    exact Bool.false_ne_true
  unfold chosen firstMachine
  rw [find?_append, lower, Option.or_none]
  apply find_congr
  intro i member
  rw [takes, decide_eq_true member, Bool.and_true]

theorem machine_agrees (machine : hart.miscRegFile .prv = PRV_M) :
    ((Pending hart opens ↔ Pending hart enabled) ∧ ∀ id, chosen hart = some id → delegated hart id = false) ↔ Agrees hart := by
  have notSupervisor : hart.miscRegFile .prv ≠ PRV_S := by
    rw [machine]
    decide
  have notUser : hart.miscRegFile .prv ≠ PRV_U := by
    rw [machine]
    decide
  obtain off | on := bit_cases (statusOf hart).mie
  · have takes : ∀ i, opens hart i = false := by
      intro i
      unfold opens
      rw [if_neg notUser, if_neg notSupervisor]
      simp [off]
    have asks : ∀ i, enabled hart i = false := by
      intro i
      unfold enabled
      cases delegated hart i <;> simp [machine, off, PRV_M, PRV_S, PRV_U]
    have nothing : chosen hart = none := by
      rw [← Option.not_isSome_iff_eq_none, chosen_isSome]
      exact pending_never takes
    constructor
    · intro _
      refine ⟨fun supervisor => absurd supervisor notSupervisor, ?_, ?_⟩
      · intro _ on
        rw [off] at on
        exact absurd on (by decide)
      · intro _ on
        rw [off] at on
        exact absurd on (by decide)
    · intro _
      refine ⟨⟨fun taken => absurd taken (pending_never takes), fun asked => absurd asked (pending_never asks)⟩, ?_⟩
      intro id choice
      rw [nothing] at choice
      cases choice
  · have takes : ∀ i, opens hart i = decide (i ∈ machineInterrupts) := by
      intro i
      unfold opens
      rw [if_neg notUser, if_neg notSupervisor]
      simp [on]
    have asks : Pending hart enabled ↔ Undelegated hart machineInterrupts ∨ Undelegated hart supervisorInterrupts := by
      apply pending_undelegated
      intro i
      unfold enabled
      cases delegated hart i <;> simp [machine, on, PRV_M, PRV_S, PRV_U]
    have choice : chosen hart = firstMachine hart := chosen_machine takes
    rw [← chosen_isSome, choice, asks]
    constructor
    · intro ⟨same, handled⟩
      refine ⟨fun supervisor => absurd supervisor notSupervisor, fun _ _ => handled, ?_⟩
      intro _ _ nothing lower
      have taken := same.mpr (.inr lower)
      rw [nothing] at taken
      cases taken
    · intro agrees
      refine ⟨?_, agrees.first machine on⟩
      cases found : firstMachine hart with
      | none =>
        refine ⟨nofun, ?_⟩
        intro some
        obtain ⟨i, member, pending, _⟩ | lower := some
        · exact absurd pending (find?_eq_none.mp found i member)
        · exact absurd lower (agrees.none machine on found)
      | some id =>
        have pending : hart.checkInterrupt id = true := find?_some found
        exact ⟨fun _ => .inl ⟨id, mem_of_find?_eq_some found, pending, agrees.first machine on id found⟩, fun _ => rfl⟩

/-- The code follows the specification if and only if the registers are such that its
mask agrees with it. -/
theorem interrupts_follow_iff (plain : Plain hart) : Follows hart ↔ Agrees hart := by
  rw [follows_iff plain]
  obtain user | supervisor | machine := plain.valid
  · have agrees := user_agrees user
    refine ⟨fun _ => agrees.2, fun _ => ⟨agrees.1, ?_⟩⟩
    intro machine
    rw [user] at machine
    exact absurd machine (by decide)
  · rw [← supervisor_agrees supervisor]
    refine ⟨fun both => both.1, fun same => ⟨same, ?_⟩⟩
    intro machine
    rw [supervisor] at machine
    exact absurd machine (by decide)
  · rw [← machine_agrees machine]
    exact ⟨fun both => ⟨both.1, both.2 machine⟩, fun both => ⟨both.1, fun _ => both.2⟩⟩

def timing : Hart :=
  { (Hart.new .rv64 0 16).set .status (STATUS.setMie 0 1) with ip := 0x80, ie := 0x80 }

theorem interrupts_follow_timing : Plain timing ∧ Follows timing := by
  have plain : Plain timing := ⟨.inr (.inr rfl), rfl, rfl, by decide⟩
  refine ⟨plain, (interrupts_follow_iff plain).mpr ⟨nofun, ?_, ?_⟩⟩
  · intro _ _ id found
    cases found
    rfl
  · intro _ _ nothing
    exact absurd nothing (by decide)

def masked : Hart :=
  { (Hart.new .rv64 0 16).set .prv PRV_S with ip := 0x2, ie := 0x2 }

/-- The interrupt is for machine mode and should be taken there at once. -/
theorem interrupts_fail_masked : Plain masked ∧ Pending masked enabled ∧
    (masked.checkInterrupts).map (fun checked => checked.1) = .ok false ∧ ¬ Follows masked := by
  have plain : Plain masked := ⟨.inr (.inl rfl), rfl, rfl, by decide⟩
  have pending : Pending masked enabled := ⟨INT_SOFTWARE_SUPER, by decide, by decide, by decide⟩
  refine ⟨plain, pending, by rfl, ?_⟩
  rw [follows_iff plain]
  intro ⟨same, _⟩
  obtain ⟨i, member, pending, opened⟩ := same.mpr pending
  have none : ∀ i ∈ machineInterrupts ++ supervisorInterrupts, (masked.checkInterrupt i && opens masked i) = false := by decide
  have never := none i member
  rw [pending, opened] at never
  cases never

end ImcGem5.Riscv.Proofs.Interrupts
