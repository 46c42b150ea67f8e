import ImcGem5.Mem.TranslationGen
import Mathlib.Tactic.Common

/-! Iterators over the parts of a region, as positions in the list of its parts. A copy of an iterator
has the right position but cannot be incremented: it takes itself for the end. -/

namespace ImcGem5.Mem.Proofs.Iterators
open Lib TranslationGen List Function

def Answers (gen : TranslationGen) : Prop := ∀ range : Range, range.paddr = 0 → range.fault = false → 0 < range.size.toNat →
  (gen.translate range).vaddr = range.vaddr ∧ (gen.translate range).fault = false ∧ 0 < (gen.translate range).size.toNat ∧
    (gen.translate range).size ≤ range.size

def partsFrom (gen : TranslationGen) : Nat → Addr → List Range
  | 0, _ => []
  | turns + 1, vaddr =>
    let size := gen.size - (vaddr - gen.start)
    if size = 0 then []
    else
      let range := gen.translate { vaddr, size }
      range :: partsFrom gen turns (vaddr + range.size)

def parts (gen : TranslationGen) : List Range := partsFrom gen gen.size.toNat gen.start

def Contiguous : Addr → List Range → Prop
  | _, [] => True
  | vaddr, range :: rest => range.vaddr = vaddr ∧ Contiguous (vaddr + range.size) rest

def total (ranges : List Range) : Nat := (ranges.map (·.size.toNat)).sum

/-- A position of an iterator. It is one's own if begin() constructed the iterator, which has not come to the end since. -/
structure Cursor where
  index : Nat
  own : Bool
  deriving DecidableEq

/-- What the operations on a forward iterator mean. An iterator at the end is not incremented or read. -/
def cursorStep (ranges : List Range) : Step (Nat → Cursor) IteratorOp IteratorResult Unit := fun cursors op =>
  match op with
  | .begin it => .ok (update cursors it ⟨0, 0 < ranges.length⟩, [])
  | .end_ it => .ok (update cursors it ⟨ranges.length, false⟩, [])
  | .copy it other => .ok (update cursors it ⟨(cursors other).index, false⟩, [])
  | .assign it other => .ok (update cursors it ⟨(cursors other).index, (cursors it).own⟩, [])
  | .preIncrement it =>
    if (cursors it).index < ranges.length then
      .ok (update cursors it ⟨(cursors it).index + 1, (cursors it).own && decide ((cursors it).index + 1 < ranges.length)⟩, [])
    else .error ()
  | .postIncrement orig it =>
    if (cursors it).index < ranges.length then
      .ok (update (update cursors it
        ⟨(cursors it).index + 1, (cursors it).own && decide ((cursors it).index + 1 < ranges.length)⟩) orig ⟨(cursors it).index, false⟩, [])
    else .error ()
  | .read it =>
    match ranges[(cursors it).index]? with
    | some range => .ok (cursors, [.range range])
    | none => .error ()
  | .equal it other => .ok (cursors, [.equal (decide ((cursors it).index = (cursors other).index))])

def Owned (cursors : Nat → Cursor) : IteratorOp → Prop
  | .preIncrement it => (cursors it).own = true
  | .postIncrement _ it => (cursors it).own = true
  | _ => True

instance (cursors : Nat → Cursor) (op : IteratorOp) : Decidable (Owned cursors op) := by
  cases op <;> unfold Owned <;> infer_instance

section Parts

variable {gen : TranslationGen}

theorem total_cons (range : Range) (rest : List Range) : total (range :: rest) = range.size.toNat + total rest := by
  unfold total
  rw [map_cons, sum_cons]

theorem left_toNat {vaddr : Addr} (inside : (vaddr - gen.start).toNat ≤ gen.size.toNat) :
    (gen.size - (vaddr - gen.start)).toNat = gen.size.toNat - (vaddr - gen.start).toNat := BitVec.toNat_sub_of_le inside

theorem part_spec (answers : Answers gen) {vaddr : Addr} (inside : (vaddr - gen.start).toNat ≤ gen.size.toNat)
    (more : gen.size - (vaddr - gen.start) ≠ 0) :
    let range := gen.translate { vaddr, size := gen.size - (vaddr - gen.start) }
    range.vaddr = vaddr ∧ range.fault = false ∧ 0 < range.size.toNat ∧
      (vaddr + range.size - gen.start).toNat = (vaddr - gen.start).toNat + range.size.toNat ∧
      (vaddr - gen.start).toNat + range.size.toNat ≤ gen.size.toNat := by
  intro range
  have left := left_toNat inside
  have positive : 0 < (gen.size - (vaddr - gen.start)).toNat := Nat.pos_of_ne_zero fun zero => more (BitVec.eq_of_toNat_eq zero)
  obtain ⟨same, sound, some, least⟩ := answers { vaddr, size := gen.size - (vaddr - gen.start) } rfl rfl positive
  have bound : range.size.toNat ≤ (gen.size - (vaddr - gen.start)).toNat := least
  have moved : vaddr + range.size - gen.start = (vaddr - gen.start) + range.size := by
    rw [BitVec.sub_eq_add_neg, BitVec.sub_eq_add_neg, BitVec.add_assoc, BitVec.add_comm range.size, ← BitVec.add_assoc]
  refine ⟨same, sound, some, ?_, by omega⟩
  rw [moved, BitVec.toNat_add, Nat.mod_eq_of_lt (by omega)]

theorem partsFrom_tile (answers : Answers gen) {turns : Nat} {vaddr : Addr} (inside : (vaddr - gen.start).toNat ≤ gen.size.toNat)
    (enough : gen.size.toNat - (vaddr - gen.start).toNat ≤ turns) :
    Contiguous vaddr (partsFrom gen turns vaddr) ∧ total (partsFrom gen turns vaddr) = gen.size.toNat - (vaddr - gen.start).toNat ∧
      ∀ range ∈ partsFrom gen turns vaddr, range.fault = false ∧ 0 < range.size.toNat := by
  induction turns generalizing vaddr with
  | zero => exact ⟨trivial, (Nat.le_zero.mp enough).symm, nofun⟩
  | succ _ ih =>
    unfold partsFrom
    by_cases none : gen.size - (vaddr - gen.start) = 0
    · have left := left_toNat inside
      rw [none] at left
      rw [if_pos none]
      exact ⟨trivial, left, nofun⟩
    · obtain ⟨same, sound, some, moved, bound⟩ := part_spec answers inside none
      rw [if_neg none]
      generalize gen.translate { vaddr, size := gen.size - (vaddr - gen.start) } = range at same sound some moved bound ⊢
      obtain ⟨contiguous, whole, valid⟩ := @ih (vaddr + range.size) (by omega) (by omega)
      refine ⟨⟨same, contiguous⟩, ?_, forall_mem_cons.mpr ⟨⟨sound, some⟩, valid⟩⟩
      rw [total_cons, whole, moved]
      omega

theorem parts_tile (answers : Answers gen) : Contiguous gen.start (parts gen) ∧ total (parts gen) = gen.size.toNat ∧
    ∀ range ∈ parts gen, range.fault = false ∧ 0 < range.size.toNat := by
  have begins : (gen.start - gen.start).toNat = 0 := by
    rw [BitVec.sub_self]
    rfl
  obtain ⟨contiguous, whole, valid⟩ := @partsFrom_tile gen answers gen.size.toNat gen.start (by omega) (by omega)
  rw [begins] at whole
  exact ⟨contiguous, whole, valid⟩

structure At (gen : TranslationGen) (i : Nat) (turns : Nat) (vaddr : Addr) : Prop where
  rest : (parts gen).drop i = partsFrom gen turns vaddr
  offset : (vaddr - gen.start).toNat = total ((parts gen).take i)
  inside : (vaddr - gen.start).toNat ≤ gen.size.toNat
  enough : gen.size.toNat - (vaddr - gen.start).toNat ≤ turns

theorem at_zero : At gen 0 gen.size.toNat gen.start := by
  have begins : (gen.start - gen.start).toNat = 0 := by
    rw [BitVec.sub_self]
    rfl
  exact ⟨rfl, begins, by omega, by omega⟩

theorem At.part {i turns : Nat} {vaddr : Addr} (at_ : At gen i turns vaddr) (answers : Answers gen) :
    (i < (parts gen).length ↔ gen.size - (vaddr - gen.start) ≠ 0) ∧ (∀ range, (parts gen)[i]? = some range →
      range = gen.translate { vaddr, size := gen.size - (vaddr - gen.start) } ∧ range.vaddr = vaddr ∧ range.fault = false ∧
        At gen (i + 1) (turns - 1) (vaddr + range.size)) := by
  have rest := at_.rest
  have left := left_toNat at_.inside
  have enough := at_.enough
  by_cases none : gen.size - (vaddr - gen.start) = 0
  · have empty : partsFrom gen turns vaddr = [] := by
      cases turns with
      | zero => rfl
      | succ => exact if_pos none
    rw [empty, drop_eq_nil_iff] at rest
    refine ⟨⟨fun less => absurd rest (Nat.not_le.mpr less), fun some => absurd none some⟩, fun range found => ?_⟩
    rw [getElem?_eq_none rest] at found
    cases found
  · cases turns with
    | zero =>
      have zero : (gen.size - (vaddr - gen.start)).toNat = 0 := by omega
      exact absurd (BitVec.eq_of_toNat_eq zero) none
    | succ turns =>
      obtain ⟨same, sound, some, moved, bound⟩ := part_spec answers at_.inside none
      have head : partsFrom gen (turns + 1) vaddr = gen.translate { vaddr, size := gen.size - (vaddr - gen.start) } ::
          partsFrom gen turns (vaddr + (gen.translate { vaddr, size := gen.size - (vaddr - gen.start) }).size) := if_neg none
      rw [head] at rest
      generalize gen.translate { vaddr, size := gen.size - (vaddr - gen.start) } = range at same sound some moved bound rest ⊢
      have less : i < (parts gen).length := by
        by_contra beyond
        rw [drop_eq_nil_of_le (Nat.not_lt.mp beyond)] at rest
        cases rest
      rw [drop_eq_getElem_cons less] at rest
      obtain ⟨here, rest⟩ := List.cons.inj rest
      refine ⟨⟨fun _ => none, fun _ => less⟩, fun _ found => ?_⟩
      rw [getElem?_eq_getElem less, here] at found
      cases found
      refine ⟨rfl, same, sound, rest, ?_, by omega, by rw [moved]; omega⟩
      rw [moved, at_.offset, take_add_one, getElem?_eq_getElem less, here]
      unfold total
      simp

theorem exists_at (answers : Answers gen) {i : Nat} (inside : i ≤ (parts gen).length) : ∃ turns vaddr, At gen i turns vaddr := by
  induction i with
  | zero => exact ⟨_, _, at_zero⟩
  | succ _ ih =>
    obtain ⟨turns, vaddr, at_⟩ := ih (Nat.le_of_succ_le inside)
    obtain ⟨_, _, _, next⟩ := (at_.part answers).2 _ (getElem?_eq_getElem inside)
    exact ⟨_, _, next⟩

end Parts

section Simulation

variable {gen : TranslationGen} {cursor other : Cursor} {it it' : TranslationGenConstIterator}

structure Related (ranges : List Range) (cursor : Cursor) (it : TranslationGenConstIterator) : Prop where
  inside : cursor.index ≤ ranges.length
  isEnd : it.isEnd = !cursor.own
  gen : it.gen = decide (cursor.index < ranges.length)
  current : it.current = (ranges[cursor.index]?).getD { vaddr := 0, size := 0 }

theorem update_related (answers : Answers gen) {i turns : Nat} {vaddr size paddr : Addr} (at_ : At gen i turns vaddr) (inside : i ≤ (parts gen).length) :
    Related (parts gen) ⟨i, decide (i < (parts gen).length)⟩
      (TranslationGenConstIterator.update gen { current := { vaddr, size, paddr }, gen := true, isEnd := false }) := by
  obtain ⟨more, found⟩ := at_.part answers
  unfold TranslationGenConstIterator.update
  by_cases less : i < (parts gen).length
  · obtain ⟨same, _⟩ := found _ (getElem?_eq_getElem less)
    rw [if_neg (more.mp less)]
    refine ⟨inside, by simp [less], by simp [less], ?_⟩
    rw [getElem?_eq_getElem less, Option.getD_some, same]
  · have none : gen.size - (vaddr - gen.start) = 0 := Classical.not_not.mp fun some => less (more.mpr some)
    rw [if_pos none]
    refine ⟨inside, by simp [less], by simp [less], ?_⟩
    rw [getElem?_eq_none (Nat.not_lt.mp less), none]
    rfl

theorem begin_related (answers : Answers gen) : Related (parts gen) ⟨0, 0 < (parts gen).length⟩ gen.begin :=
  update_related answers at_zero (Nat.zero_le _)

theorem end_related (gen : TranslationGen) : Related (parts gen) ⟨(parts gen).length, false⟩ gen.end_ := by
  refine ⟨Nat.le_refl _, rfl, by simp [end_], ?_⟩
  rw [getElem?_eq_none (Nat.le_refl _)]
  rfl

theorem Related.copy (related : Related (parts gen) cursor it) : Related (parts gen) ⟨cursor.index, false⟩ it.copy :=
  ⟨related.inside, rfl, related.gen, related.current⟩

theorem Related.assign (related : Related (parts gen) cursor it) (related' : Related (parts gen) other it') :
    Related (parts gen) ⟨other.index, cursor.own⟩ (it.assign it') :=
  ⟨related'.inside, related.isEnd, related'.gen, related'.current⟩

theorem Related.increment (answers : Answers gen) (related : Related (parts gen) cursor it) (less : cursor.index < (parts gen).length) :
    (cursor.own = true → ∃ next, it.increment gen = .ok next ∧
      Related (parts gen) ⟨cursor.index + 1, cursor.own && decide (cursor.index + 1 < (parts gen).length)⟩ next) ∧
    (cursor.own = false → it.increment gen = .error (.panic "Can't increment end iterator.")) := by
  unfold TranslationGenConstIterator.increment
  rw [related.isEnd]
  refine ⟨fun own => ?_, fun lost => ?_⟩
  · obtain ⟨_, _, at_⟩ := exists_at answers (Nat.le_of_lt less)
    obtain ⟨_, at_name, sound, next⟩ := (at_.part answers).2 _ (getElem?_eq_getElem less)
    have current := related.current
    rw [getElem?_eq_getElem less, Option.getD_some] at current
    obtain ⟨range, known, endFlag⟩ := it
    have here : range = (parts gen)[cursor.index] := current
    have live : known = true := related.gen.trans (decide_eq_true less)
    have flag : endFlag = false := related.isEnd.trans (by rw [own]; rfl)
    subst live flag
    rw [← here] at at_name sound next
    rw [own]
    refine ⟨_, rfl, ?_⟩
    rw [Bool.true_and]
    obtain ⟨_, _⟩ := range
    subst at_name sound
    exact update_related answers next less
  · rw [lost]
    rfl

theorem total_take_lt {ranges : List Range} (some : ∀ range ∈ ranges, 0 < range.size.toNat) {i j : Nat} (less : i < j) (inside : j ≤ ranges.length) :
    total (ranges.take i) < total (ranges.take j) := by
  induction j with
  | zero => cases less
  | succ j =>
    have grows : total (ranges.take (j + 1)) = total (ranges.take j) + ranges[j].size.toNat := by
      have last := take_add_one (l := ranges) (i := j)
      rw [getElem?_eq_getElem inside] at last
      rw [last]
      unfold total
      rw [map_append, sum_append]
      rfl
    have positive := some ranges[j] (getElem_mem inside)
    obtain earlier | rfl := Nat.lt_succ_iff_lt_or_eq.mp less
    · omega
    · omega

theorem vaddr_inj (answers : Answers gen) {i j : Nat} (one : i < (parts gen).length) (two : j < (parts gen).length)
    (same : (parts gen)[i].vaddr = (parts gen)[j].vaddr) : i = j := by
  obtain ⟨_, vaddr, at_⟩ := exists_at answers (Nat.le_of_lt one)
  obtain ⟨_, _, at'⟩ := exists_at answers (Nat.le_of_lt two)
  obtain ⟨_, named, _⟩ := (at_.part answers).2 _ (getElem?_eq_getElem one)
  obtain ⟨_, named', _⟩ := (at'.part answers).2 _ (getElem?_eq_getElem two)
  have level : total ((parts gen).take i) = total ((parts gen).take j) := by
    rw [← at_.offset, ← at'.offset, ← named, ← named', same]
  have some := fun range member => ((parts_tile answers).2.2 range member).2
  obtain less | equal | more := Nat.lt_trichotomy i j
  · exact absurd level (Nat.ne_of_lt (total_take_lt some less (Nat.le_of_lt two)))
  · exact equal
  · exact absurd level.symm (Nat.ne_of_lt (total_take_lt some more (Nat.le_of_lt one)))

theorem Related.equal (answers : Answers gen) (related : Related (parts gen) cursor it) (related' : Related (parts gen) other it') :
    it.equal it' = decide (cursor.index = other.index) := by
  have current := related.current
  have current' := related'.current
  unfold TranslationGenConstIterator.equal
  rw [related.gen, related'.gen]
  by_cases one : cursor.index < (parts gen).length
  · by_cases two : other.index < (parts gen).length
    · rw [getElem?_eq_getElem one, Option.getD_some] at current
      rw [getElem?_eq_getElem two, Option.getD_some] at current'
      rw [decide_eq_true one, decide_eq_true two, current, current', beq_self_eq_true, Bool.true_and, Bool.eq_iff_iff, beq_iff_eq, decide_eq_true_iff]
      refine ⟨fun same => vaddr_inj answers one two same.symm, fun same => ?_⟩
      simp only [same]
    · have apart : cursor.index ≠ other.index := fun same => two (same ▸ one)
      rw [decide_eq_true one, decide_eq_false two, decide_eq_false apart]
      rfl
  · by_cases two : other.index < (parts gen).length
    · have apart : cursor.index ≠ other.index := fun same => one (same ▸ two)
      rw [decide_eq_false one, decide_eq_true two, decide_eq_false apart]
      rfl
    · have level : cursor.index = other.index := by
        have bound := related.inside
        have bound' := related'.inside
        omega
      rw [getElem?_eq_none (Nat.not_lt.mp one)] at current
      rw [getElem?_eq_none (Nat.not_lt.mp two)] at current'
      rw [decide_eq_false one, decide_eq_false two, current, current', decide_eq_true level]
      rfl

end Simulation

section Runs

variable {gen : TranslationGen} {cursors next : Nat → Cursor} {iterators : Iterators} {op : IteratorOp} {ops : List IteratorOp}
  {results : List IteratorResult}

theorem related_update {ranges : List Range} (related : ∀ x, Related ranges (cursors x) (iterators x)) (x : Nat) {cursor : Cursor}
    {it : TranslationGenConstIterator} (here : Related ranges cursor it) (y : Nat) :
    Related ranges (update cursors x cursor y) (update iterators x it y) := by
  by_cases same : y = x
  · rw [same, update_self, update_self]
    exact here
  · rw [update_of_ne same, update_of_ne same]
    exact related y

theorem step_related (answers : Answers gen) (related : ∀ x, Related (parts gen) (cursors x) (iterators x))
    (stepped : cursorStep (parts gen) cursors op = .ok (next, results)) :
    (Owned cursors op → ∃ next', gen.step iterators op = .ok (next', results) ∧ ∀ x, Related (parts gen) (next x) (next' x)) ∧
    (¬Owned cursors op → ∃ failure, gen.step iterators op = .error failure) := by
  cases op with
  | begin x =>
    cases stepped
    exact ⟨fun _ => ⟨_, rfl, related_update related x (begin_related answers)⟩, fun lost => absurd trivial lost⟩
  | end_ x =>
    cases stepped
    exact ⟨fun _ => ⟨_, rfl, related_update related x (end_related gen)⟩, fun lost => absurd trivial lost⟩
  | copy x y =>
    cases stepped
    exact ⟨fun _ => ⟨_, rfl, related_update related x (related y).copy⟩, fun lost => absurd trivial lost⟩
  | assign x y =>
    cases stepped
    exact ⟨fun _ => ⟨_, rfl, related_update related x ((related x).assign (related y))⟩, fun lost => absurd trivial lost⟩
  | preIncrement x =>
    unfold cursorStep at stepped
    dsimp only at stepped
    split at stepped
    next less =>
      cases stepped
      obtain ⟨advances, panics⟩ := (related x).increment answers less
      refine ⟨fun own => ?_, fun lost => ?_⟩
      · obtain ⟨it, ran, here⟩ := advances own
        refine ⟨_, ?_, related_update related x here⟩
        unfold TranslationGen.step
        dsimp only
        rw [ran]
        rfl
      · refine ⟨.panic "Can't increment end iterator.", ?_⟩
        unfold TranslationGen.step
        dsimp only
        rw [panics (Bool.eq_false_iff.mpr lost)]
        rfl
    next => cases stepped
  | postIncrement y x =>
    unfold cursorStep at stepped
    dsimp only at stepped
    split at stepped
    next less =>
      cases stepped
      obtain ⟨advances, panics⟩ := (related x).increment answers less
      refine ⟨fun own => ?_, fun lost => ?_⟩
      · obtain ⟨it, ran, here⟩ := advances own
        refine ⟨_, ?_, related_update (related_update related x here) y (related x).copy⟩
        unfold TranslationGen.step TranslationGenConstIterator.postIncrement
        dsimp only
        rw [ran]
        rfl
      · refine ⟨.panic "Can't increment end iterator.", ?_⟩
        unfold TranslationGen.step TranslationGenConstIterator.postIncrement
        dsimp only
        rw [panics (Bool.eq_false_iff.mpr lost)]
        rfl
    next => cases stepped
  | read x =>
    unfold cursorStep at stepped
    dsimp only at stepped
    split at stepped
    next range found =>
      cases stepped
      have current := (related x).current
      rw [found, Option.getD_some] at current
      refine ⟨fun _ => ⟨_, ?_, related⟩, fun lost => absurd trivial lost⟩
      unfold TranslationGen.step
      dsimp only
      rw [current]
    next => cases stepped
  | equal x y =>
    cases stepped
    refine ⟨fun _ => ⟨_, ?_, related⟩, fun lost => absurd trivial lost⟩
    unfold TranslationGen.step
    dsimp only
    rw [(related x).equal answers (related y)]

theorem run_related (answers : Answers gen) (related : ∀ x, Related (parts gen) (cursors x) (iterators x)) {final : Nat → Cursor}
    (ran : run (cursorStep (parts gen)) cursors ops = .ok (final, results)) :
    (∃ final', run gen.step iterators ops = .ok (final', results)) ↔ Each (cursorStep (parts gen)) Owned cursors ops := by
  induction ops generalizing cursors iterators results with
  | nil =>
    cases ran
    exact ⟨fun _ => trivial, fun _ => ⟨iterators, rfl⟩⟩
  | cons op ops ih =>
    obtain ⟨middle, _, _, stepped, rest, rfl⟩ := run_cons.mp ran
    obtain ⟨agrees, fails⟩ := step_related answers related stepped
    have unfolds : Each (cursorStep (parts gen)) Owned cursors (op :: ops) ↔ Owned cursors op ∧ Each (cursorStep (parts gen)) Owned middle ops := by
      rw [Each, stepped]
    rw [unfolds]
    by_cases own : Owned cursors op
    · obtain ⟨_, step, related'⟩ := agrees own
      rw [and_iff_right own, ← ih related' rest]
      constructor
      · rintro ⟨final', ran'⟩
        obtain ⟨_, _, _, step', rest', same⟩ := run_cons.mp ran'
        rw [step] at step'
        cases step'
        rw [append_cancel_left same]
        exact ⟨final', rest'⟩
      · rintro ⟨final', rest'⟩
        exact ⟨final', run_cons.mpr ⟨_, _, _, step, rest', rfl⟩⟩
    · obtain ⟨_, failed⟩ := fails own
      refine ⟨?_, fun both => absurd both.1 own⟩
      rintro ⟨final', ran'⟩
      obtain ⟨_, _, _, step', _⟩ := run_cons.mp ran'
      rw [failed] at step'
      cases step'

/-- The parts tile the region, and the iterators of a caller enumerate them in every way that never increments a copy. -/
theorem traversals_agree (gen : TranslationGen) (answers : Answers gen) :
    (Contiguous gen.start (parts gen) ∧ total (parts gen) = gen.size.toNat ∧ ∀ range ∈ parts gen, range.fault = false ∧ 0 < range.size.toNat) ∧
    ∀ ops final results, run (cursorStep (parts gen)) (fun _ => ⟨(parts gen).length, false⟩) ops = .ok (final, results) →
      ((∃ final', run gen.step (fun _ => gen.end_) ops = .ok (final', results)) ↔
        Each (cursorStep (parts gen)) Owned (fun _ => ⟨(parts gen).length, false⟩) ops) :=
  ⟨parts_tile answers, fun _ _ _ ran => run_related answers (fun _ => end_related gen) ran⟩

def bytewise : TranslationGen := ⟨0x1000, 2, fun range => { range with size := 1, paddr := range.vaddr + 0x8000 }⟩

theorem bytewise_answers : Answers bytewise := by
  intro range _ sound some
  exact ⟨rfl, sound, Nat.one_pos, show 1 ≤ range.size.toNat from some⟩

/-- A copy of begin() can be read, but incrementing it takes it for the end. -/
theorem copy_panics : Answers bytewise ∧
    (∃ final, run (cursorStep (parts bytewise)) (fun _ => ⟨2, false⟩) [.begin 0, .copy 1 0, .preIncrement 1] = .ok (final, [])) ∧
    run bytewise.step (fun _ => bytewise.end_) [.begin 0, .copy 1 0, .preIncrement 1] = .error (.panic "Can't increment end iterator.") :=
  ⟨bytewise_answers, ⟨_, rfl⟩, rfl⟩

def loop : List IteratorOp := [.begin 0, .end_ 1, .read 0, .postIncrement 2 0, .read 2, .read 0, .preIncrement 0, .equal 0 1]

theorem traversals_agree_loop : ∃ final, run bytewise.step (fun _ => bytewise.end_) loop =
    .ok (final, [.range ⟨0x1000, 1, 0x9000, false⟩, .range ⟨0x1000, 1, 0x9000, false⟩, .range ⟨0x1001, 1, 0x9001, false⟩, .equal true]) :=
  ((traversals_agree bytewise bytewise_answers).2 loop _ _ rfl).mpr (by decide)

end Runs

end ImcGem5.Mem.Proofs.Iterators
