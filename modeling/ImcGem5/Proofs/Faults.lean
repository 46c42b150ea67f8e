import ImcGem5.Proofs.Inverse

/-! How the handlers can stop the simulator. Nothing is checked before an operand address or a
modulus from the guest is used, so a handler stops outside the store, or in a division, exactly
for the operands described here. -/

namespace ImcGem5.Mem.Proofs.Faults
open Lib Inverse AbstractMemory ImcOp BitVec

variable {valA valB : Word} {x0 x1 : BitVec 32}

theorem remainder_lt (large : 2 ^ 31 ≤ valB.toNat) : (valA % valB).toNat < valB.toNat := by
  rw [toNat_umod]
  exact Nat.mod_lt _ (by omega)

/-- No factor is left in common when val_b first fits into an int. Until then val_a becomes
what an int makes of val_b, and the loop may end with it. -/
def NoCommonFactor (valA valB : Word) : Prop :=
  if _small : valB.toNat < 2 ^ 31 then valA.toNat ≤ 1 ∨ Nat.gcd valA.toNat valB.toNat = 1
  else valA.toNat ≤ 1 ∨ NoCommonFactor ((valB.setWidth 32).signExtend 64) (valA % valB)
termination_by valB.toNat
decreasing_by exact remainder_lt (by omega)

theorem loop_divides_small (small : valB.toNat < 2 ^ 31) :
    invmodLoop valA valB x0 x1 ≠ .error .divideError ↔ valA.toNat ≤ 1 ∨ Nat.gcd valA.toNat valB.toNat = 1 := by
  induction steps : valB.toNat using Nat.strongRecOn generalizing valA valB x0 x1 with
  | ind _ ih =>
    subst steps
    rw [invmodLoop]
    by_cases more : (1 : Word) < valA
    · have above := more_iff.mp more
      rw [if_pos more]
      by_cases zero : valB = 0
      · rw [if_pos zero, nonzero_iff.mp zero, Nat.gcd_zero_right]
        refine iff_of_false (fun fine => fine rfl) ?_
        omega
      · have some : 0 < valB.toNat := Nat.pos_of_ne_zero fun empty => zero (nonzero_iff.mpr empty)
        have remainder : (valA % valB).toNat = valA.toNat % valB.toNat := toNat_umod
        have less : valA.toNat % valB.toNat < valB.toNat := Nat.mod_lt _ some
        rw [if_neg zero, signExtend_setWidth small, ih (valA % valB).toNat (by omega) (by omega) rfl, remainder,
          Nat.gcd_comm valB.toNat, ← Nat.gcd_rec, Nat.gcd_comm valB.toNat]
        constructor
        · rintro (_ | coprime)
          · have same : valB.toNat = 1 := by omega
            rw [same, Nat.gcd_one_right]
            exact .inr rfl
          · exact .inr coprime
        · rintro (_ | coprime)
          · omega
          · exact .inr coprime
    · rw [if_neg more]
      rw [more_iff] at more
      exact iff_of_true (by simp) (.inl (by omega))

theorem loop_divides : invmodLoop valA valB x0 x1 ≠ .error .divideError ↔ NoCommonFactor valA valB := by
  induction steps : valB.toNat using Nat.strongRecOn generalizing valA valB x0 x1 with
  | ind _ ih =>
    subst steps
    rw [NoCommonFactor]
    split
    next small => exact loop_divides_small small
    next large =>
      have positive : valB ≠ 0 := by
        rw [Ne, nonzero_iff]
        omega
      rw [invmodLoop]
      by_cases more : (1 : Word) < valA
      · rw [if_pos more, if_neg positive, ih _ (remainder_lt (by omega)) rfl]
        rw [more_iff] at more
        exact ⟨.inr, fun either => either.resolve_left (by omega)⟩
      · rw [if_neg more]
        rw [more_iff] at more
        exact iff_of_true (by simp) (.inl (by omega))

theorem noCommonFactor_one (valA : Word) : NoCommonFactor valA 1 := by
  rw [NoCommonFactor, dif_pos (by decide)]
  exact .inr (Nat.gcd_one_right _)

theorem invmod_divides : invmodResult valA valB ≠ .error .divideError ↔ NoCommonFactor valA valB := by
  rw [invmodResult]
  split
  next one =>
    rw [one]
    exact iff_of_true (by simp) (noCommonFactor_one valA)
  next other =>
    have divides : invmodLoop valA valB 0 1 ≠ .error .divideError ↔ NoCommonFactor valA valB := loop_divides
    rw [← divides]
    cases invmodLoop valA valB 0 1 with
    | ok => exact iff_of_true (by simp) (by simp)
    | error =>
      rw [error_bind]
      simp

def Divides (op : ImcOp) (word : Nat → Word) : Prop :=
  match op with
  | .addmod | .mulmod => word 2 ≠ 0
  | .submod => word 2 ≠ 0 ∧ ¬(word 0 - word 1 = intMin 64 ∧ word 2 = -1)
  | .invmod => NoCommonFactor (word 0) (word 1)
  | .mulimc | .cmpimc => True

theorem unsignedRem_divides (value divisor : Word) : unsignedRem value divisor ≠ .error .divideError ↔ divisor ≠ 0 := by
  rw [unsignedRem]
  split
  next zero => exact iff_of_false (fun fine => fine rfl) (fun nonzero => nonzero zero)
  next nonzero => exact iff_of_true (by simp) nonzero

theorem submod_divides {valC : Word} : submodResult valA valB valC ≠ .error .divideError ↔
    valC ≠ 0 ∧ ¬(valA - valB = intMin 64 ∧ valC = -1) := by
  by_cases fits : valC ≠ 0 ∧ ¬(valA - valB = intMin 64 ∧ valC = -1)
  · obtain ⟨_, computed, _⟩ := FullWidth.submod_ok fits.1 fits.2
    rw [computed]
    exact iff_of_true nofun fits
  · have stops : valC = 0 ∨ valA - valB = intMin 64 ∧ valC = -1 := by
      by_contra neither
      exact fits (not_or.mp neither)
    refine iff_of_false (fun fine => fine ?_) fits
    rw [submodResult, signedRem, if_pos stops, error_bind]

theorem compute_divides (op : ImcOp) (word : Nat → Word) : compute op word ≠ .error .divideError ↔ Divides op word := by
  cases op with
  | addmod => exact unsignedRem_divides _ _
  | submod => exact submod_divides
  | mulmod => exact unsignedRem_divides _ _
  | mulimc | cmpimc => exact iff_of_true nofun trivial
  | invmod => exact invmod_divides

def Computes {α : Type} (result : Except Abort α) : Prop := Yields (· = .divideError) result fun _ => True

theorem unsignedRem_computes (value divisor : Word) : Computes (unsignedRem value divisor) := by
  rw [unsignedRem]
  split
  · exact rfl
  · exact trivial

theorem signedRem_computes (value divisor : Word) : Computes (signedRem value divisor) := by
  rw [signedRem]
  split
  · exact rfl
  · exact trivial

theorem loop_computes (valA valB : Word) (x0 x1 : BitVec 32) : Computes (invmodLoop valA valB x0 x1) := by
  fun_induction invmodLoop valA valB x0 x1 with
  | case1 => exact rfl
  | case2 _ _ _ _ _ _ ih => exact ih
  | case3 => exact trivial

theorem compute_computes (op : ImcOp) (word : Nat → Word) : Computes (compute op word) := by
  cases op with
  | addmod | mulmod => exact unsignedRem_computes _ _
  | submod => exact (signedRem_computes _ _).bind fun _ _ => signedRem_computes _ _
  | mulimc => exact trivial
  | invmod =>
    rw [compute, invmodResult]
    split
    · exact trivial
    · exact (loop_computes _ _ _ _).bind fun _ _ => trivial
  | cmpimc => exact trivial

section
variable {op : ImcOp} {mem : AbstractMemory} {pkt : Packet}

theorem hostWord_cases (mem : AbstractMemory) (paddr : Addr) : mem.hostWord paddr =
    if mem.range.backs paddr 8 = true then .ok (mem.pmem.word paddr.toNat) else .error .outOfBounds := by
  rw [hostWord, hostRead]
  split <;> rfl

theorem setHostWord_cases (mem : AbstractMemory) (paddr : Addr) (value : Word) : mem.setHostWord paddr value =
    if mem.range.backs paddr 8 = true then .ok { mem with pmem := mem.pmem.setWord paddr.toNat value }
    else .error .outOfBounds := by
  split
  next backed => exact setHostWord_eq backed value
  next outside => rw [setHostWord, hostWrite, leBytes_length, if_neg outside]

theorem guarded_bind {α β : Type} {cond : Prop} [Decidable cond] {value : α} {next : α → Except Abort β}
    (rest : cond → next value = .error .outOfBounds) :
    ((if cond then .ok value else .error .outOfBounds : Except Abort α) >>= next) = .error .outOfBounds := by
  split
  next holds => exact rest holds
  next => rfl

/-- The first address that is not in the packet, or not in the store, stops the handler. -/
theorem handler_unreadable (blocked : ¬Readable op mem pkt) : handler op mem pkt = .error .outOfBounds := by
  cases op with
  | addmod | submod | mulmod =>
    refine guarded_bind fun _ => guarded_bind fun _ => guarded_bind fun _ => guarded_bind fun long => ?_
    rw [ternary, hostWord_cases, hostWord_cases, hostWord_cases]
    refine guarded_bind fun first => guarded_bind fun second => guarded_bind fun third => absurd ⟨long, ?_⟩ blocked
    intro position bound
    obtain rfl | rfl | rfl : position = 0 ∨ position = 1 ∨ position = 2 := by
      change position < 3 at bound
      omega
    · exact first
    · exact second
    · exact third
  | mulimc | invmod | cmpimc =>
    refine guarded_bind fun _ => guarded_bind fun _ => guarded_bind fun long => ?_
    rw [binary, hostWord_cases, hostWord_cases]
    refine guarded_bind fun first => guarded_bind fun second => absurd ⟨long, ?_⟩ blocked
    intro position bound
    obtain rfl | rfl : position = 0 ∨ position = 1 := by
      change position < 2 at bound
      omega
    · exact first
    · exact second

def words (mem : AbstractMemory) (pkt : Packet) (position : Nat) : Word := mem.pmem.word (address pkt position).toNat

theorem handler_cases (readable : Readable op mem pkt) :
    (¬Divides op (words mem pkt) ∧ handler op mem pkt = .error .divideError) ∨
      Divides op (words mem pkt) ∧ ∃ value, handler op mem pkt =
        if mem.range.backs (address pkt (arity op)) 8 = true then .ok (stored op mem pkt value, footprint op pkt)
        else .error .outOfBounds := by
  have divides := compute_divides op (words mem pkt)
  have computes := compute_computes op (words mem pkt)
  have ran : result op mem pkt = compute op (words mem pkt) := rfl
  rw [handler_readable readable, ran]
  cases computed : compute op (words mem pkt) with
  | error stop =>
    rw [computed] at divides computes
    obtain rfl : stop = .divideError := computes
    exact .inl ⟨fun fine => divides.mpr fine rfl, rfl⟩
  | ok value =>
    rw [computed] at divides
    refine .inr ⟨divides.mp nofun, value, ?_⟩
    rw [ok_bind, setHostWord_cases]
    split <;> rfl

/-- A handler stops in a division exactly when it gets as far as its operands and they are not
fit for it. -/
theorem handler_divides_iff (op : ImcOp) (mem : AbstractMemory) (pkt : Packet) :
    AbstractMemory.handler op mem pkt ≠ .error .divideError ↔ (Readable op mem pkt → Divides op (words mem pkt)) := by
  by_cases readable : Readable op mem pkt
  · simp only [readable, true_implies]
    obtain ⟨unfit, ran⟩ | ⟨fit, _, ran⟩ := handler_cases readable
    · exact iff_of_false (fun fine => fine ran) unfit
    · rw [ran]
      refine iff_of_true ?_ fit
      split <;> nofun
  · rw [handler_unreadable readable]
    exact iff_of_true nofun fun reads => absurd reads readable

/-- INVMOD of 2 modulo 4: the loop gets to a remainder of zero. -/
theorem shared_factor_divides : ¬∀ (op : ImcOp) (mem : AbstractMemory) (pkt : Packet),
    AbstractMemory.handler op mem pkt ≠ .error .divideError := by
  intro claimed
  have fits := @binaryPacket_fits .invmod rfl 2 4
  have stops : invmodResult 2 4 = .error .divideError := by
    rw [invmodResult, if_neg (by decide)]
    iterate 2 rw [invmodLoop, if_pos (by decide), if_neg (by decide)]
    rw [invmodLoop, if_pos (by decide), if_pos (by decide)]
    rfl
  apply claimed .invmod (FullWidth.operandMemory 2 4 0) (binaryPacket .invmod)
  rw [handler_eq fits]
  exact congrArg (· >>= _) stops

/-- A handler stays inside the store exactly when every address it gets to is in the store. -/
theorem handler_inside_iff (long : 8 * (arity op + 1) ≤ pkt.data.length) :
    AbstractMemory.handler op mem pkt ≠ .error .outOfBounds ↔
      (∀ position < arity op, mem.range.backs (address pkt position) 8 = true) ∧
        (mem.range.backs (address pkt (arity op)) 8 = true ∨ ¬Divides op (words mem pkt)) := by
  by_cases readable : Readable op mem pkt
  · rw [and_iff_right readable.backed]
    obtain ⟨unfit, ran⟩ | ⟨fit, _, ran⟩ := handler_cases readable
    · rw [ran]
      exact iff_of_true nofun (.inr unfit)
    · rw [ran]
      split
      next backed => exact iff_of_true nofun (.inl backed)
      next outside => exact iff_of_false (fun inside => inside rfl) (by simp [outside, fit])
  · rw [handler_unreadable readable]
    exact iff_of_false (fun inside => inside rfl) fun ⟨backed, _⟩ => readable ⟨long, backed⟩

end

/-- An operand behind the end of the memory. -/
theorem stray_operand_read : ¬∀ (op : ImcOp) (mem : AbstractMemory) (pkt : Packet),
    8 * (arity op + 1) ≤ pkt.data.length → AbstractMemory.handler op mem pkt ≠ .error .outOfBounds := by
  intro claimed
  apply claimed .cmpimc (FullWidth.operandMemory 0 0 0) (Isa.imcPacket 1 .cmpimc [0, 8192, 16]) (by decide)
  exact handler_unreadable fun readable => absurd (readable.backed 1 (by decide)) (by decide)

theorem near_operands_inside :
    AbstractMemory.handler .cmpimc (FullWidth.operandMemory 3 3 0) (binaryPacket .cmpimc) ≠ .error .outOfBounds :=
  (handler_inside_iff (by decide)).mpr ⟨fun position bound =>
    match position, bound with
    | 0, _ | 1, _ => rfl, .inl rfl⟩

end ImcGem5.Mem.Proofs.Faults
