import Mathlib.Data.List.Induction
import ImcGem5.Lib.Runs
import ImcGem5.Lib.Huffman
import ImcGem5.Mem.Huffman

/-! The codes of the Huffman encoder. They are prefix-free and optimal however the queue breaks
ties, but they are looked up by their number alone, in which leading zeros do not count. -/

namespace ImcGem5.Mem.Proofs.Huffman
open Lib Encoder List BitVec Multiset Huffman Function
open Prod (fst)

def toTree : Node → CodeTree (BitVec 64)
  | .leaf value frequency => .leaf value frequency.toNat
  | .inner left right => .node (toTree left) (toTree right)

theorem getFrequency_toNat {node : Node} (small : (toTree node).weight < 2 ^ 64) : node.getFrequency.toNat = (toTree node).weight := by
  induction node with
  | leaf => rfl
  | inner _ _ ihLeft ihRight =>
    simp only [toTree, CodeTree.weight] at small ⊢
    rw [Node.getFrequency, toNat_add, ihLeft (by omega), ihRight (by omega), Nat.mod_eq_of_lt small]

section Merging

variable {Q : Type} {queue : PriorityQueue Node Q} {contents : Q → Multiset Node}

def total (forest : Multiset Node) : ℕ := (forest.map fun node => (toTree node).weight).sum

theorem weight_le_total {forest : Multiset Node} {node : Node} (member : node ∈ forest) : (toTree node).weight ≤ total forest :=
  single_le_sum (fun _ _ => Nat.zero_le _) _ (mem_map_of_mem _ member)

section

variable (lawful : queue.Lawful NodeComparator contents)
include lawful

theorem top_ok {trees : Q} (some : contents trees ≠ 0)
    (small : total (contents trees) < 2 ^ 64) : ∃ node, Huffman.top queue trees = .ok node ∧
      contents trees = node ::ₘ contents (queue.pop trees) ∧
      ∀ other ∈ contents trees, (toTree node).weight ≤ (toTree other).weight := by
  obtain ⟨node, found, popped, first⟩ := lawful.top trees some
  refine ⟨node, by rw [Huffman.top, found], popped, fun other member => ?_⟩
  have compared := first other member
  rw [NodeComparator, decide_eq_false_iff_not, BitVec.not_lt, le_def] at compared
  have here : node ∈ contents trees := by
    rw [popped]
    exact mem_cons_self _ _
  rwa [getFrequency_toNat ((weight_le_total here).trans_lt small), getFrequency_toNat ((weight_le_total member).trans_lt small)]
    at compared

theorem mergeTrees_ok {turns : ℕ} {trees : Q} (some : contents trees ≠ 0)
    (small : total (contents trees) < 2 ^ 64) (enough : (contents trees).card < turns + 1) :
    ∃ merged root, mergeTrees queue turns trees = .ok merged ∧ contents merged = {root} ∧
      CodeTree.Merges ((contents trees).map toTree) (toTree root) := by
  induction turns generalizing trees with
  | zero => exact absurd (card_eq_zero.mp (by omega)) some
  | succ turns ih =>
    rw [mergeTrees, lawful.size]
    split
    next several =>
      obtain ⟨left, first, popped, lightest⟩ := top_ok lawful some small
      have rest : contents (queue.pop trees) ≠ 0 := by
        intro none
        rw [popped, none, card_cons, card_zero] at several
        omega
      have less : total (contents trees) = (toTree left).weight + total (contents (queue.pop trees)) := by
        rw [popped, total, Multiset.map_cons, Multiset.sum_cons]
        rfl
      obtain ⟨right, second, popped', next⟩ := top_ok lawful rest (by omega)
      have pushed := lawful.push (queue.pop (queue.pop trees)) (.inner left right)
      have less' : total (contents (queue.pop trees)) = (toTree right).weight + total (contents (queue.pop (queue.pop trees))) := by
        rw [popped', total, Multiset.map_cons, Multiset.sum_cons]
        rfl
      have small' : total (contents (queue.push (queue.pop (queue.pop trees)) (.inner left right))) < 2 ^ 64 := by
        rw [pushed, total, Multiset.map_cons, Multiset.sum_cons]
        simp only [toTree, CodeTree.weight]
        change _ + total _ < _
        omega
      have fewer : (contents (queue.push (queue.pop (queue.pop trees)) (.inner left right))).card < turns + 1 := by
        rw [popped, popped', card_cons, card_cons] at enough
        rw [pushed, card_cons]
        omega
      obtain ⟨merged, root, ran, alone, merges⟩ := ih (by rw [pushed]; exact cons_ne_zero) small' fewer
      refine ⟨merged, root, ?_, alone, ?_⟩
      · rw [bind_of_ok first]
        exact (bind_of_ok second _).trans ran
      · rw [popped, popped', Multiset.map_cons, Multiset.map_cons]
        rw [pushed, Multiset.map_cons] at merges
        refine .merge (fun other member => ?_) (fun other member => ?_) merges
        · rw [← Multiset.map_cons toTree] at member
          obtain ⟨node, inside, rfl⟩ := Multiset.mem_map.mp member
          rw [← popped'] at inside
          exact lightest node (popped ▸ mem_cons_of_mem inside)
        · obtain ⟨node, inside, rfl⟩ := Multiset.mem_map.mp member
          exact next node (popped' ▸ mem_cons_of_mem inside)
    next one =>
      have single : (contents trees).card = 1 := by
        have positive := card_pos.mpr some
        omega
      obtain ⟨root, alone⟩ := card_eq_one.mp single
      refine ⟨trees, root, rfl, alone, ?_⟩
      rw [alone, Multiset.map_singleton]
      exact .done

theorem buildTree_ok {trees : Q} (some : contents trees ≠ 0)
    (small : total (contents trees) < 2 ^ 64) : ∃ left root, buildTree queue trees = .ok (left, root) ∧ contents left = 0 ∧
      CodeTree.Merges ((contents trees).map toTree) (toTree root) := by
  have enough : (contents trees).card < queue.size trees + 1 + 1 := by
    rw [lawful.size]
    omega
  obtain ⟨merged, root, ran, alone, merges⟩ := mergeTrees_ok lawful some small enough
  obtain ⟨_, found, popped, _⟩ := lawful.top merged (by rw [alone]; exact singleton_ne_zero _)
  rw [alone] at popped
  obtain ⟨rfl, nothing⟩ := singleton_eq_cons_iff _ |>.mp popped
  refine ⟨queue.pop merged, root, ?_, nothing, merges⟩
  rw [buildTree, ran, ok_bind, Huffman.top, found]
  rfl

end

end Merging

def number (path : List Bool) : ℕ := path.foldl (fun number right => 2 * number + right.toNat) 0

def codeOf (path : List Bool) : Code := path.foldl Huffman.extend {}

def bits (code : Code) : List Bool := (List.range code.length).map fun index => code.code.getLsbD (code.length - 1 - index)

section Codes

theorem foldl_extend_length (current : Code) (path : List Bool) :
    (path.foldl Huffman.extend current).length = current.length + path.length := by
  induction path generalizing current with
  | nil => rfl
  | cons _ _ ih =>
    rw [List.foldl_cons, ih, Huffman.extend, length_cons, Nat.add_right_comm, Nat.add_assoc]

section

variable (path : List Bool)
include path

theorem codeOf_length : (codeOf path).length = path.length :=
  (foldl_extend_length {} path).trans (Nat.zero_add _)

theorem number_concat (right : Bool) : number (path ++ [right]) = 2 * number path + right.toNat := by
  rw [number, foldl_append]
  rfl

theorem codeOf_concat (right : Bool) : codeOf (path ++ [right]) = Huffman.extend (codeOf path) right := by
  rw [codeOf, foldl_append]
  rfl

theorem number_lt : number path < 2 ^ path.length := by
  induction path using reverseRecOn with
  | nil => exact Nat.one_pos
  | append_singleton _ right =>
    have bit := Bool.toNat_le right
    rw [number_concat, length_append, length_singleton, Nat.pow_succ]
    omega

end

theorem codeOf_code {path : List Bool} (short : path.length ≤ 64) : (codeOf path).code.toNat = number path := by
  induction path using reverseRecOn with
  | nil => rfl
  | append_singleton path right ih =>
    rw [length_append, length_singleton] at short
    have bound : number path < 2 ^ 63 := (number_lt path).trans_le (Nat.pow_le_pow_right Nat.two_pos (by omega))
    have current := ih (by omega)
    rw [codeOf_concat, number_concat, Huffman.extend]
    cases right with
    | true =>
      simp only [if_true, toNat_add, toNat_shiftLeft, current, Nat.shiftLeft_eq, Bool.toNat_true,
        show (1 : BitVec 64).toNat = 1 from rfl]
      omega
    | false =>
      simp only [Bool.false_eq_true, if_false, toNat_shiftLeft, current, Nat.shiftLeft_eq, Bool.toNat_false]
      omega

theorem testBit_number (path : List Bool) {index : ℕ} (inside : index < path.length) :
    (number path).testBit (path.length - 1 - index) = path[index] := by
  induction path using reverseRecOn generalizing index with
  | nil => exact absurd inside (Nat.not_lt_zero _)
  | append_singleton path right ih =>
    rw [length_append, length_singleton] at inside ⊢
    rw [number_concat]
    by_cases last : index = path.length
    · subst last
      rw [show path.length + 1 - 1 - path.length = 0 by omega, getElem_concat_length rfl]
      cases right <;> simp [Nat.testBit_zero, Nat.add_mod]
    · have before : index < path.length := by omega
      rw [show path.length + 1 - 1 - index = path.length - 1 - index + 1 by omega, Nat.testBit_succ,
        getElem_append_left before, ← ih before]
      congr 1
      have bit := Bool.toNat_le right
      omega

theorem bits_codeOf {path : List Bool} (short : path.length ≤ 64) : bits (codeOf path) = path := by
  refine ext_getElem (by rw [bits, length_map, length_range, codeOf_length]) fun _ _ inside => ?_
  simp only [bits, getElem_map, getElem_range]
  rw [codeOf_length, BitVec.getLsbD, codeOf_code short, testBit_number path inside]

def stripped (path : List Bool) : List Bool := path.dropWhile fun right => !right

theorem number_cons (right : Bool) (path : List Bool) : number (right :: path) = right.toNat * 2 ^ path.length + number path := by
  induction path using reverseRecOn with
  | nil => simp [number]
  | append_singleton _ _ ih =>
    rw [← List.cons_append, number_concat, ih, number_concat, length_append, length_singleton, Nat.pow_succ]
    ring

theorem number_stripped (path : List Bool) : number (stripped path) = number path := by
  induction path with
  | nil => rfl
  | cons right _ ih =>
    cases right with
    | true => rfl
    | false => rw [number_cons, Bool.toNat_false, Nat.zero_mul, Nat.zero_add, ← ih]; rfl

theorem number_injective {first second : List Bool} (length : first.length = second.length) (same : number first = number second) :
    first = second := by
  refine ext_getElem length fun _ here there => ?_
  rw [← testBit_number first here, ← testBit_number second there, same, length]

theorem stripped_cases (path : List Bool) : stripped path = [] ∨ ∃ rest, stripped path = true :: rest := by
  induction path with
  | nil => exact .inl rfl
  | cons right path ih =>
    cases right with
    | true => exact .inr ⟨path, rfl⟩
    | false => exact ih

theorem le_number (rest : List Bool) : 2 ^ rest.length ≤ number (true :: rest) := by
  rw [number_cons, Bool.toNat_true, Nat.one_mul]
  exact Nat.le_add_right _ _

theorem length_le_of_number {first second : List Bool} (same : number (true :: first) = number (true :: second)) :
    second.length ≤ first.length := by
  by_contra longer
  have above := le_number second
  have below := number_lt (true :: first)
  have steps : 2 ^ (true :: first).length ≤ 2 ^ second.length := Nat.pow_le_pow_right Nat.two_pos (Nat.not_le.mp longer)
  omega

theorem number_eq_iff (first second : List Bool) : number first = number second ↔ stripped first = stripped second := by
  constructor
  · intro same
    rw [← number_stripped first, ← number_stripped second] at same
    have positive (rest : List Bool) : number (true :: rest) ≠ number [] :=
      Nat.ne_of_gt (Nat.lt_of_lt_of_le (Nat.two_pow_pos _) (le_number rest))
    obtain here | ⟨rest, here⟩ := stripped_cases first
    · obtain there | ⟨other, there⟩ := stripped_cases second
      · rw [here, there]
      · rw [here, there] at same
        exact absurd same.symm (positive other)
    · obtain there | ⟨other, there⟩ := stripped_cases second
      · rw [here, there] at same
        exact absurd same (positive rest)
      · rw [here, there] at same ⊢
        refine number_injective ?_ same
        rw [length_cons, length_cons, Nat.le_antisymm (length_le_of_number same.symm) (length_le_of_number same)]
  · intro same
    rw [← number_stripped first, same, number_stripped]

end Codes

section Tables

variable {Q : Type}

def record (huffman : Huffman Q) (current : Code) (value : BitVec 64) : Huffman Q :=
  if huffman.maxCodeLength < current.length then huffman
  else
    { huffman with
      valueToCode := update huffman.valueToCode value (some current)
      codeToValue := update huffman.codeToValue current.code (some value) }

theorem foldl_record_long {huffman : Huffman Q} {current : Code} (long : huffman.maxCodeLength < current.length)
    (leaves : List (CodeTree.Leaf (BitVec 64))) :
    leaves.foldl (fun huffman leaf => record huffman (leaf.path.foldl Huffman.extend current) leaf.item) huffman = huffman := by
  induction leaves with
  | nil => rfl
  | cons _ _ ih =>
    rw [List.foldl_cons, record, if_pos (by rw [foldl_extend_length]; omega), ih]

theorem generateCodes_eq (huffman : Huffman Q) (node : Node) (current : Code) : huffman.generateCodes node current =
    (toTree node).leaves.foldl (fun huffman leaf => record huffman (leaf.path.foldl Huffman.extend current) leaf.item) huffman := by
  induction node generalizing huffman current with
  | leaf => rfl
  | inner _ _ ihLeft ihRight =>
    rw [generateCodes]
    split
    next long => exact (foldl_record_long long _).symm
    · rw [toTree, CodeTree.leaves, foldl_append, foldl_map, foldl_map, ihLeft, ihRight]
      rfl

theorem foldl_update {κ β γ : Type} [DecidableEq κ] (key : β → κ) (value : β → γ) (start : κ → Option γ) (list : List β) (at_ : κ) :
    list.foldl (fun table item => update table (key item) (some (value item))) start at_ =
      ((list.reverse.find? fun item => decide (key item = at_)).map value).or (start at_) := by
  induction list using reverseRecOn with
  | nil => rfl
  | append_singleton _ item ih =>
    rw [foldl_append, List.foldl_cons, foldl_nil, List.reverse_append, reverse_singleton, singleton_append, List.find?_cons]
    by_cases here : key item = at_
    · rw [decide_eq_true here, ← here, update_self]
      rfl
    · rw [decide_eq_false here, update_of_ne (Ne.symm here), ih]

def kept (max : ℕ) (tree : CodeTree (BitVec 64)) : List (CodeTree.Leaf (BitVec 64)) :=
  tree.leaves.filter fun leaf => decide (leaf.path.length ≤ max)

theorem generateCodes_tables (huffman : Huffman Q) (node : Node) :
    (huffman.generateCodes node {}).valueToCode = (kept huffman.maxCodeLength (toTree node)).foldl
      (fun (table : BitVec 64 → Option Code) leaf => update table leaf.item (some (codeOf leaf.path))) huffman.valueToCode ∧
    (huffman.generateCodes node {}).codeToValue = (kept huffman.maxCodeLength (toTree node)).foldl
      (fun (table : BitVec 64 → Option (BitVec 64)) leaf => update table (codeOf leaf.path).code (some leaf.item))
      huffman.codeToValue := by
  rw [generateCodes_eq, kept]
  induction (toTree node).leaves generalizing huffman with
  | nil => exact ⟨rfl, rfl⟩
  | cons leaf _ ih =>
    rw [List.foldl_cons]
    obtain ⟨values, codes⟩ := ih (record huffman (leaf.path.foldl Huffman.extend {}) leaf.item)
    rw [values, codes, record]
    have length : (leaf.path.foldl Huffman.extend {}).length = leaf.path.length := codeOf_length leaf.path
    rw [length]
    split
    next long =>
      rw [List.filter_cons_of_neg (by simpa using long)]
      exact ⟨rfl, rfl⟩
    next short =>
      rw [List.filter_cons_of_pos (by simpa using short)]
      exact ⟨rfl, rfl⟩

end Tables

section Generating

variable {Q : Type} {queue : PriorityQueue Node Q} {contents : Q → Multiset Node} {huffman final : Huffman Q}
  {samples : List (BitVec 64 × BitVec 64)} {left : Q} {root : Node}

def weighted (samples : List (BitVec 64 × BitVec 64)) : Multiset (BitVec 64 × ℕ) := samples.map fun sample => (sample.1, sample.2.toNat)

theorem sampleAll_contents (huffman : Huffman Q) (lawful : queue.Lawful NodeComparator contents) (positive : ∀ sample ∈ samples, sample.2 ≠ 0) :
    contents (huffman.sampleAll queue samples).trees = ↑(samples.map fun sample => Node.leaf sample.1 sample.2) + contents huffman.trees ∧
      (huffman.sampleAll queue samples).maxCodeLength = huffman.maxCodeLength := by
  induction samples generalizing huffman with
  | nil => exact ⟨(zero_add _).symm, rfl⟩
  | cons sample samples ih =>
    obtain ⟨counted, others⟩ := List.forall_mem_cons.mp positive
    have pushed : huffman.sample queue sample.1 sample.2 =
        { huffman with trees := queue.push huffman.trees (.leaf sample.1 sample.2) } := if_pos counted
    have step : huffman.sampleAll queue (sample :: samples) = (huffman.sample queue sample.1 sample.2).sampleAll queue samples := rfl
    obtain ⟨more, same⟩ := ih (huffman.sample queue sample.1 sample.2) others
    rw [step, more, same, pushed]
    refine ⟨?_, rfl⟩
    rw [lawful.push, List.map_cons, ← cons_coe, cons_add, add_cons]

/-- A tree of greedy merges, and the maps read off it. -/
structure Generated (max : ℕ) (samples : List (BitVec 64 × BitVec 64)) (root : Node) (final : Huffman Q) : Prop where
  merges : CodeTree.Merges ((weighted samples).map fun sample => .leaf sample.1 sample.2) (toTree root)
  bounded : max ≤ 64
  valueToCode : ∀ value, final.valueToCode value =
    ((kept max (toTree root)).reverse.find? fun leaf => decide (leaf.item = value)).map fun leaf => codeOf leaf.path
  codeToValue : ∀ code, final.codeToValue code =
    ((kept max (toTree root)).reverse.find? fun leaf => decide ((codeOf leaf.path).code = code)).map CodeTree.Leaf.item

theorem buildTree_some (lawful : queue.Lawful NodeComparator contents) {trees : Q} (built : buildTree queue trees = .ok (left, root)) :
    contents trees ≠ 0 := by
  intro none
  have size : queue.size trees = 0 := by rw [lawful.size, none, card_zero]
  have merged : mergeTrees queue (queue.size trees + 1) trees = .ok trees := by
    rw [mergeTrees, if_neg (by omega)]
  rw [buildTree, bind_of_ok merged, Huffman.top, lawful.empty trees none] at built
  cases built

theorem generateCodeMaps_ok (lawful : queue.Lawful NodeComparator contents) (empty : contents huffman.trees = 0) (some : samples ≠ [])
    (positive : ∀ sample ∈ samples, sample.2 ≠ 0) (small : (samples.map fun sample => sample.2.toNat).sum < 2 ^ 64) :
    ∃ left root final, buildTree queue (huffman.sampleAll queue samples).trees = .ok (left, root) ∧
      (huffman.sampleAll queue samples).generateCodeMaps queue = .ok final ∧ Generated huffman.maxCodeLength samples root final := by
  obtain ⟨filled, max⟩ := sampleAll_contents huffman lawful positive
  rw [empty, add_zero] at filled
  have forest : (contents (huffman.sampleAll queue samples).trees).map toTree =
      (weighted samples).map fun sample => .leaf sample.1 sample.2 := by
    rw [filled, weighted, map_coe, map_coe, List.map_map, List.map_map]
    rfl
  have bound : total (contents (huffman.sampleAll queue samples).trees) < 2 ^ 64 := by
    rw [filled, total, map_coe, List.map_map, sum_coe]
    exact small
  obtain ⟨left, root, built, _, merges⟩ := buildTree_ok lawful (by rw [filled]; simpa using some) bound
  rw [forest] at merges
  refine ⟨left, root, _, built, bind_of_ok built _, merges, huffman.bounded, fun _ => ?_, fun _ => ?_⟩
  · obtain ⟨values, _⟩ := generateCodes_tables { huffman.sampleAll queue samples with
      trees := left, valueToCode := fun _ => none, codeToValue := fun _ => none } root
    rw [values, foldl_update, Option.or_none, max]
  · obtain ⟨_, codes⟩ := generateCodes_tables { huffman.sampleAll queue samples with
      trees := left, valueToCode := fun _ => none, codeToValue := fun _ => none } root
    rw [codes, foldl_update, Option.or_none, max]

namespace Generated

variable {max : ℕ} {leaf other : CodeTree.Leaf (BitVec 64)}

section

variable (generated : Generated max samples root final)
include generated

theorem entries : (toTree root).entries = weighted samples := by
  rw [generated.merges.entries, Multiset.map_map]
  exact sum_map_singleton (weighted samples)

theorem nodup_items (distinct : (samples.map fst).Nodup) : ((toTree root).leaves.map CodeTree.Leaf.item).Nodup := by
  have same := congrArg (Multiset.map fst) generated.entries
  rw [CodeTree.entries, weighted, map_coe, List.map_map, map_coe, List.map_map] at same
  exact (coe_eq_coe.mp same).nodup_iff.mpr distinct

theorem unique (distinct : (samples.map fst).Nodup)
    (here : leaf ∈ (toTree root).leaves) (there : other ∈ (toTree root).leaves) (same : leaf.item = other.item) : leaf = other :=
  inj_on_of_nodup_map (generated.nodup_items distinct) here there same

theorem exists_leaf {sample : BitVec 64 × BitVec 64} (member : sample ∈ samples) :
    ∃ leaf ∈ (toTree root).leaves, leaf.item = sample.1 := by
  have inside : (sample.1, sample.2.toNat) ∈ (toTree root).entries := by
    rw [generated.entries, weighted, mem_coe]
    exact mem_map_of_mem member
  obtain ⟨leaf, here, same⟩ := List.mem_map.mp inside
  exact ⟨leaf, here, congrArg fst same⟩

theorem exists_sample (here : leaf ∈ (toTree root).leaves) : ∃ sample ∈ samples, sample.1 = leaf.item := by
  have inside : (leaf.item, leaf.weight) ∈ (toTree root).entries := mem_coe.mpr (mem_map_of_mem here)
  rw [generated.entries, weighted, mem_coe] at inside
  obtain ⟨sample, member, same⟩ := List.mem_map.mp inside
  exact ⟨sample, member, congrArg fst same⟩

theorem encode_kept (distinct : (samples.map fst).Nodup)
    (here : leaf ∈ (toTree root).leaves) (short : leaf.path.length ≤ max) : final.encode leaf.item = codeOf leaf.path := by
  have member : leaf ∈ kept max (toTree root) := List.mem_filter.mpr ⟨here, decide_eq_true short⟩
  have found : ((kept max (toTree root)).reverse.find? fun other => decide (other.item = leaf.item)) = some leaf := by
    cases search : (kept max (toTree root)).reverse.find? fun other => decide (other.item = leaf.item) with
    | none => exact absurd (decide_eq_true rfl) (find?_eq_none.mp search leaf (mem_reverse.mpr member))
    | some =>
      have inside := (List.mem_filter.mp (mem_reverse.mp (mem_of_find?_eq_some search))).1
      rw [generated.unique distinct inside here (by simpa using find?_some search)]
  rw [Huffman.encode, generated.valueToCode, found]
  rfl

theorem encode_dropped (distinct : (samples.map fst).Nodup)
    (here : leaf ∈ (toTree root).leaves) (long : max < leaf.path.length) : (final.encode leaf.item).length = 65 := by
  have missing : ((kept max (toTree root)).reverse.find? fun other => decide (other.item = leaf.item)) = none := by
    refine find?_eq_none.mpr fun other member found => ?_
    obtain ⟨inside, short⟩ := List.mem_filter.mp (mem_reverse.mp member)
    rw [generated.unique distinct inside here (of_decide_eq_true found), decide_eq_true_eq] at short
    omega
  rw [Huffman.encode, generated.valueToCode, missing]
  rfl

theorem kept_iff (distinct : (samples.map fst).Nodup)
    (here : leaf ∈ (toTree root).leaves) : (final.encode leaf.item).length ≤ 64 ↔ leaf.path.length ≤ max := by
  have bounded := generated.bounded
  rcases Nat.lt_or_ge max leaf.path.length with long | short
  · rw [generated.encode_dropped distinct here long]
    omega
  · rw [generated.encode_kept distinct here short, codeOf_length]
    omega

theorem sum_samples (length : BitVec 64 → ℕ) :
    (samples.map fun sample => sample.2.toNat * length sample.1).sum =
      ((toTree root).leaves.map fun leaf => leaf.weight * length leaf.item).sum := by
  have same := congrArg (fun entries => (entries.map fun entry : BitVec 64 × ℕ => entry.2 * length entry.1).sum) generated.entries
  simp only [CodeTree.entries, weighted, map_coe, sum_coe, List.map_map] at same
  exact same.symm

end

end Generated

end Generating

section Generating

variable {Q : Type} {queue : PriorityQueue Node Q} {contents : Q → Multiset Node} {huffman : Huffman Q}
  {samples : List (BitVec 64 × BitVec 64)}

theorem generated_of_built (lawful : queue.Lawful NodeComparator contents) (empty : contents huffman.trees = 0)
    (positive : ∀ sample ∈ samples, sample.2 ≠ 0) (small : (samples.map fun sample => sample.2.toNat).sum < 2 ^ 64)
    {left : Q} {root : Node} {final : Huffman Q} (built : buildTree queue (huffman.sampleAll queue samples).trees = .ok (left, root))
    (made : (huffman.sampleAll queue samples).generateCodeMaps queue = .ok final) :
    Generated huffman.maxCodeLength samples root final := by
  have some : samples ≠ [] := by
    rintro rfl
    exact buildTree_some lawful built empty
  obtain ⟨_, _, _, built', made', generated⟩ := generateCodeMaps_ok lawful empty some positive small
  cases built.symm.trans built'
  cases made.symm.trans made'
  exact generated

/-- The codes of the samples are prefix-free, and no prefix-free code is better, if none is dropped. -/
theorem codes_optimal (lawful : queue.Lawful NodeComparator contents) (empty : contents huffman.trees = 0)
    (distinct : (samples.map Prod.fst).Nodup) (positive : ∀ sample ∈ samples, sample.2 ≠ 0)
    (small : (samples.map fun sample => sample.2.toNat).sum < 2 ^ 64) :
    (samples ≠ [] → ∃ left root final, Huffman.buildTree queue (huffman.sampleAll queue samples).trees = .ok (left, root) ∧
      (huffman.sampleAll queue samples).generateCodeMaps queue = .ok final) ∧
    ∀ left root final, Huffman.buildTree queue (huffman.sampleAll queue samples).trees = .ok (left, root) →
      (huffman.sampleAll queue samples).generateCodeMaps queue = .ok final → (toTree root).depth ≤ huffman.maxCodeLength →
        (∀ first ∈ samples, ∀ second ∈ samples, bits (final.encode first.1) <+: bits (final.encode second.1) → first = second) ∧
        ∀ code : BitVec 64 → List Bool, (∀ first ∈ samples, ∀ second ∈ samples, code first.1 <+: code second.1 → first = second) →
          (samples.map fun sample => sample.2.toNat * (final.encode sample.1).length).sum ≤
            (samples.map fun sample => sample.2.toNat * (code sample.1).length).sum := by
  refine ⟨fun some => ?_, fun left root final built made shallow => ?_⟩
  · obtain ⟨left, root, final, built, made, _⟩ := generateCodeMaps_ok lawful empty some positive small
    exact ⟨left, root, final, built, made⟩
  have generated := generated_of_built lawful empty positive small built made
  have encoded : ∀ leaf ∈ (toTree root).leaves, final.encode leaf.item = codeOf leaf.path := fun leaf here =>
    generated.encode_kept distinct here ((CodeTree.path_length_le here).trans shallow)
  have short : ∀ leaf ∈ (toTree root).leaves, leaf.path.length ≤ 64 := fun leaf here =>
    ((CodeTree.path_length_le here).trans shallow).trans huffman.bounded
  constructor
  · intro first here second there before
    obtain ⟨leaf, inside, item⟩ := generated.exists_leaf here
    obtain ⟨other, within, item'⟩ := generated.exists_leaf there
    rw [← item, ← item', encoded leaf inside, encoded other within, bits_codeOf (short leaf inside), bits_codeOf (short other within)]
      at before
    have same := CodeTree.leaves_apart inside within before
    exact inj_on_of_nodup_map distinct here there (by rw [← item, ← item', same])
  · intro code free
    have distinct' : ((weighted samples).map fst).Nodup := by
      rw [weighted, map_coe, List.map_map]
      exact distinct
    have free' : PrefixFree ((weighted samples).map fst) code := by
      intro first here second there before
      obtain ⟨⟨_, _⟩, inside, rfl⟩ := Multiset.mem_map.mp here
      obtain ⟨⟨_, _⟩, within, rfl⟩ := Multiset.mem_map.mp there
      obtain ⟨one, member, same⟩ := List.mem_map.mp inside
      obtain ⟨other, member', same'⟩ := List.mem_map.mp within
      cases same
      cases same'
      rw [free one member other member' before]
    have lengths : ((toTree root).leaves.map fun leaf => leaf.weight * (final.encode leaf.item).length) =
        (toTree root).leaves.map fun leaf => leaf.weight * leaf.path.length :=
      map_congr_left fun leaf here => by rw [encoded leaf here, codeOf_length]
    rw [generated.sum_samples fun value => (final.encode value).length, lengths, CodeTree.sum_path]
    refine (generated.merges.optimal distinct' free').trans (Nat.le_of_eq ?_)
    rw [weighted, map_coe, sum_coe, List.map_map]
    rfl

/-- Leaves that are not dropped and whose paths differ in leading turns to the left alone. -/
def Clash (max : ℕ) (tree : CodeTree (BitVec 64)) : Prop :=
  ∃ first ∈ tree.leaves, ∃ second ∈ tree.leaves, first.path.length ≤ max ∧ second.path.length ≤ max ∧ first.path ≠ second.path ∧
    stripped first.path = stripped second.path

/-- A code is decoded to the last value that was recorded under its number. -/
theorem decodes_iff (lawful : queue.Lawful NodeComparator contents) (empty : contents huffman.trees = 0)
    (distinct : (samples.map Prod.fst).Nodup) (positive : ∀ sample ∈ samples, sample.2 ≠ 0)
    (small : (samples.map fun sample => sample.2.toNat).sum < 2 ^ 64) {left : Q} {root : Node} {final : Huffman Q}
    (built : Huffman.buildTree queue (huffman.sampleAll queue samples).trees = .ok (left, root))
    (made : (huffman.sampleAll queue samples).generateCodeMaps queue = .ok final) :
    (∀ sample ∈ samples, (final.encode sample.1).length ≤ 64 → final.decode (final.encode sample.1).code = .ok sample.1) ↔
      ¬Clash huffman.maxCodeLength (toTree root) := by
  have generated := generated_of_built lawful empty positive small built made
  have clashes {first second : CodeTree.Leaf (BitVec 64)} (short : first.path.length ≤ huffman.maxCodeLength)
      (short' : second.path.length ≤ huffman.maxCodeLength) :
      (codeOf first.path).code = (codeOf second.path).code ↔ stripped first.path = stripped second.path := by
    rw [← number_eq_iff, ← codeOf_code (short.trans huffman.bounded), ← codeOf_code (short'.trans huffman.bounded)]
    exact toNat_inj.symm
  constructor
  · rintro decodes ⟨first, here, second, there, short, short', apart, same⟩
    have decoded {leaf : CodeTree.Leaf (BitVec 64)} (inside : leaf ∈ (toTree root).leaves)
        (fits : leaf.path.length ≤ huffman.maxCodeLength) : final.decode (codeOf leaf.path).code = .ok leaf.item := by
      obtain ⟨sample, member, value⟩ := generated.exists_sample inside
      have decodes' := decodes sample member
      rw [value] at decodes'
      have back := decodes' ((generated.kept_iff distinct inside).mpr fits)
      rwa [generated.encode_kept distinct inside fits] at back
    have item := decoded here short
    rw [(clashes short short').mpr same, decoded there short'] at item
    exact apart (congrArg CodeTree.Leaf.path (generated.unique distinct here there (Except.ok.inj item).symm))
  · intro clear sample member fits
    obtain ⟨leaf, inside, item⟩ := generated.exists_leaf member
    rw [← item] at fits ⊢
    have short := (generated.kept_iff distinct inside).mp fits
    rw [generated.encode_kept distinct inside short, Huffman.decode, generated.codeToValue]
    have here : leaf ∈ kept huffman.maxCodeLength (toTree root) := List.mem_filter.mpr ⟨inside, decide_eq_true short⟩
    cases search : (kept huffman.maxCodeLength (toTree root)).reverse.find? fun other =>
        decide ((codeOf other.path).code = (codeOf leaf.path).code) with
    | none => exact absurd (decide_eq_true rfl) (find?_eq_none.mp search leaf (mem_reverse.mpr here))
    | some other =>
      obtain ⟨within, short'⟩ := List.mem_filter.mp (mem_reverse.mp (mem_of_find?_eq_some search))
      have same : (codeOf other.path).code = (codeOf leaf.path).code := by simpa using find?_some search
      have path : other.path = leaf.path := by
        by_contra apart
        exact clear ⟨other, within, leaf, inside, of_decide_eq_true short', short, apart,
          (clashes (of_decide_eq_true short') short).mp same⟩
      rw [CodeTree.leaves_apart within inside (path ▸ prefix_rfl)]
      rfl

def lightest : List Node → Option Node
  | [] => none
  | node :: rest =>
    match lightest rest with
    | none => some node
    | some other => if other.getFrequency ≤ node.getFrequency then some other else some node

def listQueue : PriorityQueue Node (List Node) where
  push nodes node := node :: nodes
  size := length
  top := lightest
  pop nodes := ((lightest nodes).map nodes.erase).getD nodes

theorem lightest_ok {nodes : List Node} (filled : nodes ≠ []) :
    ∃ node ∈ nodes, lightest nodes = some node ∧ ∀ other ∈ nodes, node.getFrequency ≤ other.getFrequency := by
  induction nodes with
  | nil => exact absurd rfl filled
  | cons node rest ih =>
    cases rest with
    | nil => exact ⟨node, mem_cons_self, rfl, forall_mem_singleton.mpr (BitVec.le_refl _)⟩
    | cons next =>
      obtain ⟨best, member, found, least⟩ := ih (cons_ne_nil _ _)
      rw [lightest, found]
      dsimp only
      split
      next less => exact ⟨best, mem_cons_of_mem _ member, rfl, List.forall_mem_cons.mpr ⟨less, least⟩⟩
      next more =>
        refine ⟨node, mem_cons_self, rfl, List.forall_mem_cons.mpr ⟨BitVec.le_refl _, fun other inside => ?_⟩⟩
        exact BitVec.le_trans (BitVec.le_of_lt (BitVec.not_le.mp more)) (least other inside)

theorem listQueue_lawful : listQueue.Lawful NodeComparator fun nodes => ↑nodes where
  push _ _ := rfl
  size _ := rfl
  empty nodes nothing := by
    rw [(coe_eq_zero nodes).mp nothing]
    rfl
  top nodes filled := by
    obtain ⟨node, member, found, least⟩ := lightest_ok fun nothing => filled ((coe_eq_zero nodes).mpr nothing)
    have popped : listQueue.pop nodes = nodes.erase node := by
      simp only [listQueue, found]
      rfl
    refine ⟨node, found, ?_, fun other inside => ?_⟩
    · rw [popped]
      exact coe_eq_coe.mpr (perm_cons_erase member)
    · rw [NodeComparator, decide_eq_false_iff_not, BitVec.not_lt]
      exact least other inside

def emptyHuffman : Huffman (List Node) where
  maxCodeLength := 10
  bounded := by decide
  trees := []

def evenSamples : List (BitVec 64 × BitVec 64) := [(100, 3), (200, 3), (300, 3), (400, 3)]

theorem even_positive : ∀ sample ∈ evenSamples, sample.2 ≠ 0 := by simp [evenSamples]

theorem codes_optimal_even : ∃ final, (emptyHuffman.sampleAll listQueue evenSamples).generateCodeMaps listQueue = .ok final ∧
    ∀ code : BitVec 64 → List Bool, (∀ first ∈ evenSamples, ∀ second ∈ evenSamples, code first.1 <+: code second.1 → first = second) →
      (evenSamples.map fun sample => sample.2.toNat * (final.encode sample.1).length).sum ≤
        (evenSamples.map fun sample => sample.2.toNat * (code sample.1).length).sum := by
  have both := @codes_optimal _ _ _ emptyHuffman evenSamples listQueue_lawful rfl (by decide) even_positive (by decide)
  obtain ⟨final, made⟩ : ∃ final, (emptyHuffman.sampleAll listQueue evenSamples).generateCodeMaps listQueue = .ok final := ⟨_, rfl⟩
  exact ⟨final, made, (both.2 _ _ final rfl made (by decide)).2⟩

theorem decodes_even : ∃ final, (emptyHuffman.sampleAll listQueue evenSamples).generateCodeMaps listQueue = .ok final ∧
    ∀ sample ∈ evenSamples, (final.encode sample.1).length ≤ 64 → final.decode (final.encode sample.1).code = .ok sample.1 := by
  obtain ⟨final, made⟩ : ∃ final, (emptyHuffman.sampleAll listQueue evenSamples).generateCodeMaps listQueue = .ok final := ⟨_, rfl⟩
  refine ⟨final, made, (decodes_iff listQueue_lawful rfl (by decide) even_positive (by decide) rfl made).mpr ?_⟩
  unfold Clash
  decide

def unevenSamples : List (BitVec 64 × BitVec 64) := [(100, 5), (200, 1), (300, 1)]

/-- Its code is 1, and one of the others has 01. -/
theorem decoded_to_another : ∃ final, (emptyHuffman.sampleAll listQueue unevenSamples).generateCodeMaps listQueue = .ok final ∧
    final.encode 100 = ⟨1, 1⟩ ∧ final.decode 1 = .ok 300 :=
  ⟨_, rfl, by decide, by decide⟩

end Generating

end ImcGem5.Mem.Proofs.Huffman
