import ImcGem5.Sim.Serialize
import ImcGem5.Proofs.IniFile
import Mathlib.Tactic.IntervalCases

/-! A checkpoint gives back the values that were written to it. Numbers are shown in decimal
without leading zeros, so that no base but ten is detected, and an array is cut at the blanks
that were put between its values. -/

namespace ImcGem5.Sim.Proofs.Serialize
open Lib Base Base.Proofs.IniFile List
open Nat (digitChar toDigits)
open Option (bind_eq_bind bind_some)

section Numbers
variable {n d : Nat} {c : Char} {digits : Text}

theorem digitIn_digitChar (small : d < 10) : digitIn 10 (digitChar d) = some d := by
  interval_cases d <;> rfl

theorem mem_toDigits (member : c ∈ toDigits 10 n) : ∃ d < 10, c = digitChar d := by
  induction n using Nat.strongRecOn with
  | ind n ih =>
    rw [Nat.toDigits_eq_if (by decide)] at member
    split at member
    next small => exact ⟨n, small, mem_singleton.mp member⟩
    next large =>
      obtain early | last := mem_concat.mp member
      · exact ih (n / 10) (by omega) early
      · exact ⟨n % 10, by omega, last⟩

theorem toDigits_head (positive : 0 < n) : ∃ d digits, toDigits 10 n = digitChar d :: digits ∧ 0 < d ∧ d < 10 := by
  induction n using Nat.strongRecOn with
  | ind n ih =>
    rw [Nat.toDigits_eq_if (by decide)]
    split
    next small => exact ⟨n, [], rfl, positive, small⟩
    next large =>
      obtain ⟨d, digits, same, nonzero, small⟩ := ih (n / 10) (by omega) (by omega)
      exact ⟨d, digits ++ [digitChar (n % 10)], by rw [same]; rfl, nonzero, small⟩

theorem foldl_toDigits (n : Nat) : (toDigits 10 n).foldl (fun number c => number * 10 + (digitIn 10 c).getD 0) 0 = n := by
  induction n using Nat.strongRecOn with
  | ind n ih =>
    rw [Nat.toDigits_eq_if (by decide)]
    split
    next small =>
      rw [foldl_cons, foldl_nil, digitIn_digitChar small]
      exact Nat.zero_add n
    next large =>
      rw [foldl_append, ih (n / 10) (by omega), foldl_cons, foldl_nil, digitIn_digitChar (by omega)]
      exact Nat.div_add_mod' n 10

theorem digitsIn_toDigits (n : Nat) : digitsIn 10 (toDigits 10 n) = some n := by
  have all : (toDigits 10 n).takeWhile (fun c => (digitIn 10 c).isSome) = toDigits 10 n := by
    rw [takeWhile_eq_self_iff]
    intro c member
    obtain ⟨d, small, rfl⟩ := mem_toDigits member
    rw [digitIn_digitChar small]
    rfl
  have value := foldl_toDigits n
  rw [digitsIn, all]
  cases shape : toDigits 10 n with
  | nil => exact absurd shape Nat.toDigits_ne_nil
  | cons =>
    rw [shape] at value
    exact congrArg some value

theorem strtol_digits (nonzero : 0 < d) (small : d < 10) : strtol (digitChar d :: digits) =
    (digitsIn 10 (digitChar d :: digits)).map (false, ·) := by
  interval_cases d <;> rfl

theorem strtol_minus (nonzero : 0 < d) (small : d < 10) : strtol ('-' :: digitChar d :: digits) =
    (digitsIn 10 (digitChar d :: digits)).map (true, ·) := by
  interval_cases d <;> rfl

theorem strtol_decimal (value : Int) : strtol (decimal value) = some (decide (value < 0), value.natAbs) := by
  obtain zero | positive := Nat.eq_zero_or_pos value.natAbs
  · rw [Int.natAbs_eq_zero.mp zero]
    rfl
  · obtain ⟨d, _, shape, nonzero, small⟩ := toDigits_head positive
    have number := digitsIn_toDigits value.natAbs
    rw [decimal]
    split
    next negative =>
      rw [shape, strtol_minus nonzero small, ← shape, number, decide_eq_true negative]
      rfl
    next natural =>
      rw [shape, strtol_digits nonzero small, ← shape, number, decide_eq_false natural]
      rfl

end Numbers

structure Fits (type : IntType) (value : Int) : Prop where
  width : type.bits ≤ 64
  lowest : type.lowest ≤ value
  max : value ≤ type.max

structure Word (s : Text) : Prop where
  nonempty : s ≠ []
  blanks : ' ' ∉ s
  line : '\n' ∉ s

section Values
variable {type : IntType} {value : Int}

theorem mem_decimal {c : Char} (member : c ∈ decimal value) : c = '-' ∨ ∃ d < 10, c = digitChar d := by
  rw [decimal] at member
  split at member
  next =>
    obtain sign | digit := mem_cons.mp member
    · exact .inl sign
    · exact .inr (mem_toDigits digit)
  next => exact .inr (mem_toDigits member)

theorem not_mem_decimal {c : Char} (sign : c ≠ '-') (digit : ∀ d < 10, c ≠ digitChar d) : c ∉ decimal value := by
  intro member
  obtain same | ⟨d, small, same⟩ := mem_decimal member
  · exact sign same
  · exact digit d small same

theorem decimal_word (value : Int) : Word (decimal value) := by
  refine ⟨?_, not_mem_decimal (by decide) (by decide), not_mem_decimal (by decide) (by decide)⟩
  rw [decimal]
  split
  · exact cons_ne_nil _ _
  · exact Nat.toDigits_ne_nil

theorem values_le {bits wide : Nat} (narrow : bits ≤ wide) : IntType.values bits ≤ IntType.values wide :=
  Int.ofNat_le.mpr (Nat.pow_le_pow_right (by decide) narrow)

theorem Fits.signed (fits : Fits type value) (signed : type.signed = true) : -2 ^ 63 ≤ value ∧ value ≤ 2 ^ 63 - 1 := by
  have narrow : IntType.values (type.bits - 1) ≤ 2 ^ 63 := values_le (by have := fits.width; omega)
  have lowest := fits.lowest
  have max := fits.max
  rw [IntType.lowest, if_pos signed] at lowest
  rw [IntType.max, if_pos signed] at max
  constructor <;> omega

theorem Fits.unsigned (fits : Fits type value) (unsigned : type.signed = false) : 0 ≤ value ∧ value < 2 ^ 64 := by
  have narrow : IntType.values type.bits ≤ 2 ^ 64 := values_le fits.width
  have lowest := fits.lowest
  have max := fits.max
  rw [IntType.lowest, if_neg (by rw [unsigned]; exact Bool.false_ne_true)] at lowest
  rw [IntType.max, if_neg (by rw [unsigned]; exact Bool.false_ne_true)] at max
  constructor <;> omega

theorem stoll_decimal (low : -2 ^ 63 ≤ value) (high : value ≤ 2 ^ 63 - 1) : stoll (decimal value) = some value := by
  have signed : (if decide (value < 0) = true then -(value.natAbs : Int) else value.natAbs) = value := by
    split
    next negative => 
      have negative := of_decide_eq_true negative
      omega
    next natural =>
      have natural := of_decide_eq_false (eq_false_of_ne_true natural)
      omega
  have bounds : IntType.longLong.lowest ≤ value ∧ value ≤ IntType.longLong.max := ⟨low, high⟩
  unfold stoll
  simp only [strtol_decimal, bind_eq_bind, bind_some, signed, guard, if_pos bounds]
  rfl

theorem stoull_decimal (low : 0 ≤ value) (high : value < 2 ^ 64) : stoull (decimal value) = some value := by
  have natural : decide (value < 0) = false := decide_eq_false (Int.not_lt.mpr low)
  have bound : value.natAbs < 2 ^ 64 := by omega
  have same : (value.natAbs : Int) = value := Int.natAbs_of_nonneg low
  unfold stoull
  simp only [strtol_decimal, bind_eq_bind, bind_some, guard, if_pos bound, natural, Bool.false_eq_true, if_false, same]
  rfl

theorem toNumber_decimal (fits : Fits type value) : toNumber type (decimal value) = some value := by
  have plain : 'e' ∉ decimal value := not_mem_decimal (by decide) (by decide)
  unfold toNumber
  cases signed : type.signed with
  | true =>
    obtain ⟨low, high⟩ := fits.signed signed
    have bounds : type.lowest ≤ value ∧ value ≤ type.max := ⟨fits.lowest, fits.max⟩
    simp only [bind_eq_bind, guard, if_pos plain, if_pos bounds, stoll_decimal low high, if_true, bind_some]
    rfl
  | false =>
    obtain ⟨low, high⟩ := fits.unsigned signed
    simp only [bind_eq_bind, guard, if_pos plain, if_pos fits.max, stoull_decimal low high, Bool.false_eq_true, if_false,
      bind_some]
    rfl

end Values

def words : List Text → Text
  | [] => []
  | first :: rest => first ++ rest.flatMap (' ' :: ·)

section Tokens
variable {word : Text} {rest : List Text}

theorem Word.solid (ok : Word word) : ∃ c others, word = c :: others ∧ ¬(c == ' ') = true := by
  obtain ⟨c, others, rfl⟩ := exists_cons_of_ne_nil ok.nonempty
  exact ⟨c, others, rfl, fun same => ok.blanks (by rw [beq_iff_eq.mp same]; exact mem_cons_self)⟩

theorem Word.head (ok : Word word) (tail : Text) : (word ++ tail).dropWhile (· == ' ') = word ++ tail := by
  obtain ⟨c, _, rfl, solid⟩ := ok.solid
  exact dropWhile_cons_of_neg solid

theorem tokensFrom_words (ok : Word word) (others : ∀ word ∈ rest, Word word) {turns : Nat} (enough : rest.length < turns) :
    tokensFrom ' ' turns (word ++ rest.flatMap (' ' :: ·)) = word :: rest := by
  have wanted : ∀ {word : Text}, Word word → ∀ c ∈ word, (c != ' ') = true := fun ok c member =>
    bne_iff_ne.mpr fun same => ok.blanks (same ▸ member)
  induction rest generalizing word turns with
  | nil =>
    obtain ⟨turns, rfl⟩ := Nat.exists_eq_succ_of_ne_zero (Nat.ne_of_gt enough)
    rw [flatMap_nil, append_nil, tokensFrom, span_all (wanted ok)]
  | cons second rest ih =>
    obtain ⟨turns, rfl⟩ := Nat.exists_eq_succ_of_ne_zero (Nat.ne_of_gt (Nat.zero_lt_of_lt enough))
    obtain ⟨secondOk, others⟩ := forall_mem_cons.mp others
    have later := ih secondOk others (Nat.lt_of_succ_lt_succ enough)
    rw [flatMap_cons, cons_append, tokensFrom, span_stop (wanted ok) rfl]
    dsimp only
    rw [secondOk.head]
    cases shape : second ++ rest.flatMap (' ' :: ·) with
    | nil => exact absurd (append_eq_nil_iff.mp shape).1 secondOk.nonempty
    | cons =>
      rw [shape] at later
      exact congrArg (word :: ·) later

theorem length_lt_words (ok : Word word) (rest : List Text) : rest.length < (words (word :: rest)).length := by
  have solid : 0 < word.length := length_pos_iff.mpr ok.nonempty
  have long : rest.length ≤ (rest.flatMap (' ' :: ·)).length := by
    induction rest with
    | nil => exact Nat.le_refl _
    | cons =>
      rw [flatMap_cons, length_append, length_cons, length_cons]
      omega
  rw [words, length_append]
  omega

variable {all : List Text}

theorem tokenize_words (ok : ∀ word ∈ all, Word word) : tokenize (words all) ' ' = all := by
  cases all with
  | nil => rfl
  | cons _ rest =>
    obtain ⟨first, others⟩ := forall_mem_cons.mp ok
    have tokens := tokensFrom_words first others (length_lt_words first rest)
    obtain ⟨c, _, rfl, solid⟩ := first.solid
    rw [words, cons_append] at tokens ⊢
    rw [tokenize, if_neg solid]
    exact tokens

theorem back_append {one two : Text} (first : one.getLast? ≠ some ' ') (second : two.getLast? ≠ some ' ') :
    (one ++ two).getLast? ≠ some ' ' := by
  rw [getLast?_append]
  cases last : two.getLast? with
  | none => exact first
  | some =>
    rw [last] at second
    exact second

theorem Word.back (ok : Word word) : word.getLast? ≠ some ' ' := fun last => ok.blanks (mem_of_getLast? last)

theorem words_trimmed (ok : ∀ word ∈ all, Word word) : Trimmed (words all) := by
  cases all with
  | nil => exact ⟨nofun, nofun⟩
  | cons _ rest =>
    obtain ⟨first, others⟩ := forall_mem_cons.mp ok
    constructor
    · rw [words, head?_append_of_ne_nil _ first.nonempty]
      exact fun blank => first.blanks (mem_of_head? blank)
    · apply back_append first.back
      clear ok first
      induction rest with
      | nil => exact nofun
      | cons _ _ ih =>
        obtain ⟨secondOk, others⟩ := forall_mem_cons.mp others
        rw [flatMap_cons]
        apply back_append _ (ih others)
        rw [getLast?_cons_of_ne_nil secondOk.nonempty]
        exact secondOk.back

theorem words_line (ok : ∀ word ∈ all, Word word) : '\n' ∉ words all := by
  cases all with
  | nil => exact not_mem_nil
  | cons =>
    obtain ⟨first, others⟩ := forall_mem_cons.mp ok
    rw [words, mem_append, mem_flatMap]
    rintro (here | ⟨second, member, inside⟩)
    · exact first.line here
    · obtain same | inside := mem_cons.mp inside
      · exact absurd same (by decide)
      · exact (others second member).line inside

end Tokens

/-- Values that their types can hold, and strings that are written on one line. -/
def ParamOk : Param → Prop
  | .integer type value => Fits type value
  | .boolean _ => True
  | .string value => Trimmed value ∧ '\n' ∉ value
  | .integers type values => ∀ value ∈ values, Fits type value
  | .booleans _ => True

def shown : Param → Text
  | .integer _ value => decimal value
  | .boolean value => Handler.boolean.shown value
  | .string value => value
  | .integers _ values => words (values.map decimal)
  | .booleans values => words (values.map Handler.boolean.shown)

def Restored (cp : IniFile) (path name : Text) : Param → Prop
  | .integer type value => paramIn (.integer type) cp path name = .ok value
  | .boolean value => paramIn .boolean cp path name = .ok value
  | .string value => paramIn .string cp path name = .ok value
  | .integers type values => ∀ size, size = none ∨ size = some values.length →
      arrayParamIn (.integer type) cp path name size = .ok values
  | .booleans values => ∀ size, size = none ∨ size = some values.length →
      arrayParamIn .boolean cp path name size = .ok values

section Params
variable {T : Type} {handler : Handler T} {cp : IniFile} {path name : Text} {values : List T}

theorem boolean_word (value : Bool) : Word (Handler.boolean.shown value) := by
  cases value <;> exact ⟨by decide, by decide, by decide⟩

theorem shown_ok {param : Param} (ok : ParamOk param) : Trimmed (shown param) ∧ '\n' ∉ shown param := by
  have single : ∀ {word : Text}, Word word → Trimmed word ∧ '\n' ∉ word := by
    intro word ok
    have list : ∀ other ∈ [word], Word other := forall_mem_singleton.mpr ok
    have trimmed := words_trimmed list
    rw [words, flatMap_nil, append_nil] at trimmed
    exact ⟨trimmed, ok.line⟩
  cases param with
  | integer _ value => exact single (decimal_word value)
  | boolean value => exact single (boolean_word value)
  | string => exact ok
  | integers _ values =>
    have each : ∀ word ∈ values.map decimal, Word word := forall_mem_map.mpr fun value _ => decimal_word value
    exact ⟨words_trimmed each, words_line each⟩
  | booleans values =>
    have each : ∀ word ∈ values.map Handler.boolean.shown, Word word := forall_mem_map.mpr fun value _ => boolean_word value
    exact ⟨words_trimmed each, words_line each⟩

theorem arrayParamOut_eq (name : Text) (values : List T) :
    arrayParamOut handler name values = assignmentText (name, words (values.map handler.shown)) := by
  cases values with
  | nil => rfl
  | cons =>
    rw [arrayParamOut, assignmentText, map_cons, words, flatMap_map]

theorem out_eq (name : Text) (param : Param) : param.out name = assignmentText (name, shown param) := by
  cases param with
  | integers _ values | booleans values => exact arrayParamOut_eq name values
  | _ => rfl

theorem paramIn_found {value : T} {text : Text} (found : cp.find path name = some text) (parsed : handler.parse text = some value) :
    paramIn handler cp path name = .ok value := by
  rw [paramIn, found]
  dsimp only [bind_eq_bind, bind_some]
  rw [parsed]

theorem arrayParamIn_found (found : cp.find path name = some (words (values.map handler.shown)))
    (word : ∀ value ∈ values, Word (handler.shown value)) (parsed : ∀ value ∈ values, handler.parse (handler.shown value) = some value)
    {size : Option Nat} (matching : size = none ∨ size = some values.length) : arrayParamIn handler cp path name size = .ok values := by
  have tokens := tokenize_words (forall_mem_map.mpr word)
  have sized : size.any ((values.map handler.shown).length != ·) = false := by
    rw [length_map]
    obtain rfl | rfl := matching
    · rfl
    · exact bne_self_eq_false _
  rw [arrayParamIn, found]
  dsimp only
  rw [tokens, sized, if_neg Bool.false_ne_true]
  clear found word tokens sized matching
  induction values with
  | nil => rfl
  | cons _ _ ih =>
    obtain ⟨here, others⟩ := forall_mem_cons.mp parsed
    rw [map_cons, mapM_cons, here, ih others]
    rfl

theorem toBool_shown (value : Bool) : toBool (Handler.boolean.shown value) = some value := by
  cases value <;> rfl

theorem restored {param : Param} (ok : ParamOk param) (found : cp.find path name = some (shown param)) :
    Restored cp path name param := by
  cases param with
  | integer => exact paramIn_found found (toNumber_decimal ok)
  | boolean value => exact paramIn_found found (toBool_shown value)
  | string => exact paramIn_found found rfl
  | integers =>
    exact fun size => arrayParamIn_found found (fun value _ => decimal_word value) fun value member => toNumber_decimal (ok value member)
  | booleans =>
    exact fun size => arrayParamIn_found found (fun value _ => boolean_word value) fun value _ => toBool_shown value

end Params

def textOf (section_ : CheckpointSection) : Text × List (Text × Text) :=
  (section_.path, section_.params.map fun entry => (entry.1, shown entry.2))

theorem section_out (section_ : CheckpointSection) : section_.out = sectionText (textOf section_) := by
  have params : (section_.params.flatMap fun entry => entry.2.out entry.1) =
      (section_.params.map fun entry => (entry.1, shown entry.2)).flatMap assignmentText := by
    rw [flatMap_map]
    exact congrArg (section_.params.flatMap ·) (funext fun entry => out_eq entry.1 entry.2)
  have header : section_.nameOut = ['\n'] ++ ('[' :: section_.path ++ [']'] ++ ['\n']) := by
    rw [CheckpointSection.nameOut]
    exact congrArg ('\n' :: '[' :: ·) (append_assoc section_.path [']'] ['\n']).symm
  rw [CheckpointSection.out, header]
  exact congrArg _ params

structure SectionOk (section_ : CheckpointSection) : Prop where
  path : PathOk section_.path
  names : ∀ entry ∈ section_.params, NameOk entry.1
  params : ∀ entry ∈ section_.params, ParamOk entry.2

def writtenNames (sections : List CheckpointSection) : List (Text × Text) :=
  sections.flatMap fun section_ => section_.params.map fun entry => (section_.path, entry.1)

theorem keys_eq (sections : List CheckpointSection) :
    ((sections.map textOf).flatMap assignmentsOf).map Assignment.key = writtenNames sections := by
  induction sections with
  | nil => rfl
  | cons section_ sections ih =>
    have step : writtenNames (section_ :: sections) =
        (section_.params.map fun entry => (section_.path, entry.1)) ++ writtenNames sections := flatMap_cons
    rw [map_cons, flatMap_cons, map_append, ih, step, assignmentsOf, textOf, map_map, map_map]
    rfl

theorem mem_assignments {sections : List CheckpointSection} {section_ : CheckpointSection} (member : section_ ∈ sections)
    {entry : Text × Param} (inside : entry ∈ section_.params) :
    (section_.path, entry.1, shown entry.2) ∈ (sections.map textOf).flatMap assignmentsOf := by
  apply mem_flatMap.mpr
  refine ⟨textOf section_, mem_map_of_mem member, ?_⟩
  apply mem_map.mpr
  exact ⟨(entry.1, shown entry.2), mem_map.mpr ⟨entry, inside, rfl⟩, rfl⟩

/-- Loading a checkpoint gives back every parameter that was written to it, and finds no other
name. -/
theorem checkpoint_round_trip (time : Text) (line : '\n' ∉ time) (sections : List CheckpointSection)
    (ok : ∀ section_ ∈ sections, SectionOk section_) (distinct : (writtenNames sections).Nodup) :
    ∃ cp, IniFile.empty.load (checkpointOut time sections) = .ok (cp, true) ∧
      (∀ section_ ∈ sections, ∀ entry ∈ section_.params, Restored cp section_.path entry.1 entry.2) ∧
      ∀ path name, (path, name) ∉ writtenNames sections → cp.find path name = none := by
  have heading : '\n' ∉ "## checkpoint generated: ".toList ++ time := by
    rw [mem_append, not_or]
    exact ⟨by decide, line⟩
  have written : checkpointOut time sections =
      ("## checkpoint generated: ".toList ++ time) ++ ['\n'] ++ (sections.map textOf).flatMap sectionText := by
    have same : CheckpointSection.out = fun section_ => sectionText (textOf section_) := funext section_out
    unfold checkpointOut
    rw [flatMap_map, same]
    exact append_cons ..
  have paths : ∀ texts ∈ sections.map textOf, PathOk texts.1 := by
    intro texts member
    obtain ⟨section_, listed, rfl⟩ := mem_map.mp member
    exact (ok section_ listed).path
  have entries : ∀ texts ∈ sections.map textOf, ∀ entry ∈ texts.2, EntryOk entry := by
    intro texts member entry inside
    obtain ⟨section_, listed, rfl⟩ := mem_map.mp member
    obtain ⟨entry, written, rfl⟩ := mem_map.mp inside
    obtain ⟨trimmed, oneLine⟩ := shown_ok ((ok section_ listed).params entry written)
    exact ⟨(ok section_ listed).names entry written, trimmed, oneLine⟩
  have start : ("## checkpoint generated: ".toList ++ time).head? = some '#' := rfl
  rw [← keys_eq] at distinct
  obtain ⟨cp, loaded, holds⟩ := load_sections start rfl (by decide) heading paths entries distinct
  refine ⟨cp, by rw [written]; exact loaded, ?_, ?_⟩
  · intro section_ member entry inside
    exact restored ((ok section_ member).params entry inside) ((holds _ _ _).mpr (mem_assignments member inside))
  · intro path name absent
    rw [Option.eq_none_iff_forall_ne_some]
    intro value found
    apply absent
    rw [← keys_eq]
    exact mem_map.mpr ⟨_, (holds path name value).mp found, rfl⟩

theorem spaces_iff (name : Text) : name.any isSpace = false ↔ ∀ c ∈ name, isSpace c = false := by
  rw [any_eq_false]
  exact forall₂_congr fun c _ => Bool.not_eq_true _ ▸ Iff.rfl

instance (name : Text) : Decidable (NameOk name) :=
  decidable_of_iff (name ≠ [] ∧ '=' ∉ name ∧ '+' ∉ name ∧ '[' ∉ name ∧ name.any isSpace = false)
    ⟨fun ⟨nonempty, equals, plus, bracket, spaces⟩ => ⟨nonempty, equals, plus, bracket, (spaces_iff name).mp spaces⟩,
      fun ⟨nonempty, equals, plus, bracket, spaces⟩ => ⟨nonempty, equals, plus, bracket, (spaces_iff name).mpr spaces⟩⟩

instance (s : Text) : Decidable (Trimmed s) :=
  decidable_of_iff (s.head? ≠ some ' ' ∧ s.getLast? ≠ some ' ')
    ⟨fun ⟨front, back⟩ => ⟨front, back⟩, fun ⟨front, back⟩ => ⟨front, back⟩⟩

instance (path : Text) : Decidable (PathOk path) :=
  decidable_of_iff (Trimmed path ∧ '\n' ∉ path) ⟨fun ⟨trimmed, line⟩ => ⟨trimmed, line⟩, fun ⟨trimmed, line⟩ => ⟨trimmed, line⟩⟩

instance (type : IntType) (value : Int) : Decidable (Fits type value) :=
  decidable_of_iff (type.bits ≤ 64 ∧ type.lowest ≤ value ∧ value ≤ type.max)
    ⟨fun ⟨width, lowest, max⟩ => ⟨width, lowest, max⟩, fun ⟨width, lowest, max⟩ => ⟨width, lowest, max⟩⟩

instance : DecidablePred ParamOk
  | .integer type value => inferInstanceAs (Decidable (Fits type value))
  | .string value => inferInstanceAs (Decidable (Trimmed value ∧ '\n' ∉ value))
  | .integers type values => inferInstanceAs (Decidable (∀ value ∈ values, Fits type value))
  | .boolean _ | .booleans _ => inferInstanceAs (Decidable True)

instance (section_ : CheckpointSection) : Decidable (SectionOk section_) :=
  decidable_of_iff (PathOk section_.path ∧ (∀ entry ∈ section_.params, NameOk entry.1) ∧ ∀ entry ∈ section_.params, ParamOk entry.2)
    ⟨fun ⟨path, names, params⟩ => ⟨path, names, params⟩, fun ⟨path, names, params⟩ => ⟨path, names, params⟩⟩

def someSections : List CheckpointSection :=
  [⟨['c', 'p', 'u'], [(['b'], .integer ⟨true, 8⟩ (-128)), (['o'], .booleans [true, false])]⟩,
    ⟨['m'], [(['b'], .integers ⟨false, 64⟩ [0, 18446744073709551615]), (['s'], .string ['[', 'x', ']'])]⟩]

theorem checkpoint_round_trip_some : ∃ cp, IniFile.empty.load (checkpointOut ['n', 'o', 'w'] someSections) = .ok (cp, true) ∧
    (∀ section_ ∈ someSections, ∀ entry ∈ section_.params, Restored cp section_.path entry.1 entry.2) ∧
    cp.find ['m'] ['o'] = none := by
  obtain ⟨cp, loaded, back, others⟩ := checkpoint_round_trip ['n', 'o', 'w'] (by decide) someSections (by decide +kernel) (by decide)
  exact ⟨cp, loaded, back, others ['m'] ['o'] (by decide)⟩

def blankSection : List CheckpointSection := [⟨[' ', 'a'], [(['x'], .integer ⟨false, 32⟩ 1)]⟩]

theorem checkpoint_round_trip_blank :
    (∀ section_ ∈ blankSection, ∀ entry ∈ section_.params, NameOk entry.1 ∧ ParamOk entry.2) ∧ (writtenNames blankSection).Nodup ∧
    ∃ cp, IniFile.empty.load (checkpointOut ['n', 'o', 'w'] blankSection) = .ok (cp, true) ∧
      paramIn (.integer ⟨false, 32⟩) cp [' ', 'a'] ['x'] = .error (.panic "Can't unserialize '%s:%s'") := by
  exact ⟨by decide +kernel, by decide, _, rfl, rfl⟩

end ImcGem5.Sim.Proofs.Serialize
