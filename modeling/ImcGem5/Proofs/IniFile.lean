import ImcGem5.Base.IniFile
import Mathlib.Data.List.TakeDrop

/-! What load finds in a file of sections with assignments. Each line is read by itself, and
an assignment of a new name adds this name and nothing else. -/

namespace ImcGem5.Base.Proofs.IniFile
open Lib Base List Function

structure Trimmed (s : Text) : Prop where
  front : s.head? ≠ some ' '
  back : s.getLast? ≠ some ' '

/-- A name that is read back whole. -/
structure NameOk (name : Text) : Prop where
  nonempty : name ≠ []
  equals : '=' ∉ name
  plus : '+' ∉ name
  bracket : '[' ∉ name
  spaces : ∀ c ∈ name, isSpace c = false

section Text
variable {s : Text} {c : Char}

theorem eatLeadWhite_front (front : s.head? ≠ some ' ') : eatLeadWhite s = s := by
  cases s with
  | nil => rfl
  | cons first rest =>
    have kept : (first :: rest).dropWhile (· == ' ') = first :: rest :=
      dropWhile_cons_of_neg fun same => front (congrArg some (beq_iff_eq.mp same))
    rw [eatLeadWhite, kept]

theorem eatEndWhite_back (back : s.getLast? ≠ some ' ') : eatEndWhite s = s := by
  have same : s.rdropWhile (· == ' ') = s := by
    rw [rdropWhile_eq_self_iff]
    intro nonempty blank
    rw [getLast?_eq_some_getLast nonempty] at back
    exact back (congrArg some (beq_iff_eq.mp blank))
  rw [eatEndWhite, same]
  cases s <;> rfl

theorem Trimmed.eatWhite (trimmed : Trimmed s) : eatWhite s = s := by
  rw [Base.eatWhite, eatLeadWhite_front trimmed.front, eatEndWhite_back trimmed.back]

theorem eatEndWhite_head (first : s.head? = some c) (different : c ≠ ' ') : (eatEndWhite s).head? = some c := by
  obtain ⟨_, same⟩ := rdropWhile_prefix (· == ' ') (l := s)
  rw [eatEndWhite]
  cases left : s.rdropWhile (· == ' ') with
  | nil =>
    have blank := rdropWhile_eq_nil_iff.mp left c (mem_of_head? first)
    exact absurd (beq_iff_eq.mp blank) different
  | cons =>
    rw [left] at same
    rw [← same] at first
    exact first

theorem span_stop {p : Char → Bool} {word rest : Text} (wanted : ∀ c ∈ word, p c = true) (stop : p c = false) :
    (word ++ c :: rest).span p = (word, c :: rest) := by
  have ended : ¬p c = true := by rw [stop]; exact Bool.false_ne_true
  rw [span_eq_takeWhile_dropWhile, takeWhile_append_of_pos wanted, dropWhile_append_of_pos wanted,
    takeWhile_cons_of_neg ended, dropWhile_cons_of_neg ended, append_nil]

theorem span_all {p : Char → Bool} {word : Text} (wanted : ∀ c ∈ word, p c = true) : word.span p = (word, []) := by
  rw [span_eq_takeWhile_dropWhile, takeWhile_eq_self_iff.mpr wanted, dropWhile_eq_nil_iff.mpr wanted]

theorem NameOk.trimmed {name : Text} (ok : NameOk name) : Trimmed name := by
  constructor
  · intro front
    have blank := ok.spaces ' ' (mem_of_head? front)
    cases blank
  · intro back
    have blank := ok.spaces ' ' (mem_of_getLast? back)
    cases blank

end Text

def Loads (db : IniFile) (current : Option Text) (f : Text) (final : IniFile) : Prop :=
  ∀ turns, f.length < turns → db.loadFrom turns current f = .ok (final, true)

def Reaches (db : IniFile) (current : Option Text) (piece : Text) (next : IniFile) (after : Option Text) : Prop :=
  ∀ rest final, Loads next after rest final → Loads db current (piece ++ rest) final

section Lines
variable {db middle next : IniFile} {current between after : Option Text} {piece line rest : Text}

theorem loads_end : Loads db current [] db := by
  intro turns enough
  obtain ⟨turns, rfl⟩ := Nat.exists_eq_succ_of_ne_zero (Nat.ne_of_gt enough)
  rfl

theorem Reaches.refl : Reaches db current [] db current := fun _ _ loads => loads

theorem Reaches.append (one : Reaches db current piece middle between) (two : Reaches middle between rest next after) :
    Reaches db current (piece ++ rest) next after := by
  intro remaining final loads
  rw [append_assoc]
  exact one _ final (two remaining final loads)

theorem reaches_blank : Reaches db current ['\n'] db current := by
  intro rest final loads turns enough
  obtain ⟨turns, rfl⟩ := Nat.exists_eq_succ_of_ne_zero (Nat.ne_of_gt (Nat.zero_lt_of_lt enough))
  have later := loads (turns + 1) (Nat.lt_of_succ_lt enough)
  exact later

theorem reaches_line (start : line.head?.any (fun c => !isSpace c) = true) (whole : '\n' ∉ line)
    (added : db.addLine current line = .ok (some (next, after))) : Reaches db current (line ++ ['\n']) next after := by
  intro rest final loads turns enough
  obtain ⟨turns, rfl⟩ := Nat.exists_eq_succ_of_ne_zero (Nat.ne_of_gt (Nat.zero_lt_of_lt enough))
  obtain ⟨first, others, rfl⟩ : ∃ first others, line = first :: others := by
    cases line with
    | nil => cases start
    | cons first others => exact ⟨first, others, rfl⟩
  have solid : ¬isSpace first = true := by
    intro space
    rw [head?_cons, Option.any_some, space] at start
    cases start
  have kept : (first :: others ++ ['\n'] ++ rest).dropWhile isSpace = first :: others ++ '\n' :: rest := by
    rw [append_assoc, cons_append, dropWhile_cons_of_neg solid]
    rfl
  have parted : (first :: others ++ '\n' :: rest).span (· != '\n') = (first :: others, '\n' :: rest) := by
    apply span_stop _ rfl
    intro c member
    exact bne_iff_ne.mpr fun same => whole (same ▸ member)
  have room : rest.length < turns := by
    rw [length_append, length_append, length_cons] at enough
    omega
  rw [IniFile.loadFrom, kept]
  dsimp only [cons_append] at parted ⊢
  rw [parted]
  rw [added]
  exact loads turns room

end Lines

section Adding
variable {db : IniFile} {current : Option Text} {line path name value : Text}

theorem addLine_outside {first : Char} (start : line.head? = some first) (solid : first ≠ ' ') (plain : first ≠ '[') :
    db.addLine none line = .ok (some (db, none)) := by
  have header : ((eatEndWhite line).head? == some '[') = false := by
    rw [eatEndWhite_head start solid]
    exact beq_eq_false_iff_ne.mpr fun same => plain (Option.some.inj same)
  rw [IniFile.addLine, header]
  rfl

theorem addLine_header (trimmed : Trimmed path) :
    db.addLine current ('[' :: path ++ [']']) = .ok (some (db.addSection path, some path)) := by
  have last : ('[' :: path ++ [']']).getLast? = some ']' := getLast?_concat
  have kept : eatEndWhite ('[' :: path ++ [']']) = '[' :: path ++ [']'] := by
    apply eatEndWhite_back
    rw [last]
    decide
  have inner : ('[' :: path ++ [']']).tail.take (('[' :: path ++ [']']).length - 2) = path := by
    rw [cons_append, tail_cons, length_cons, length_append, length_singleton]
    exact take_left' rfl
  unfold IniFile.addLine
  dsimp only
  rw [kept, last, inner, trimmed.eatWhite]
  rfl

variable {table : IniFile.Section}

theorem add_assignment (ok : NameOk name) (trimmed : Trimmed value) :
    table.add (name ++ '=' :: value) = .ok (some (table.addEntry name value false)) := by
  have found : (name ++ '=' :: value).findIdx? (· == '=') = some name.length := by
    have before : name.findIdx? (· == '=') = none := by
      rw [findIdx?_eq_none_iff]
      intro c member
      exact beq_eq_false_iff_ne.mpr fun same => ok.equals (same ▸ member)
    have here : ('=' :: value).findIdx? (· == '=') = some 0 := findIdx?_cons
    rw [findIdx?_append, before, here]
    exact congrArg some (Nat.zero_add _)
  obtain ⟨before, length⟩ := Nat.exists_eq_succ_of_ne_zero (mt length_eq_zero_iff.mp ok.nonempty)
  have append : ((name ++ '=' :: value)[before]? == some '+') = false := by
    rw [getElem?_append_left (by omega)]
    apply beq_eq_false_iff_ne.mpr
    exact fun same => ok.plus (mem_of_getElem? same)
  have key : (name ++ '=' :: value).take (before + 1) = name := take_left' length
  have rest : (name ++ '=' :: value).drop (before + 2) = value := by
    rw [append_cons]
    exact drop_left' (by rw [length_append, length]; rfl)
  rw [IniFile.Section.add, found, length]
  dsimp only
  rw [append, if_neg Bool.false_ne_true, key, rest, ok.trimmed.eatWhite, trimmed.eatWhite]
  rfl

theorem addLine_entry (held : db path = some table) (ok : NameOk name) (trimmed : Trimmed value) :
    db.addLine (some path) (name ++ '=' :: value) =
      .ok (some (update db path (some (table.addEntry name value false)), some path)) := by
  have kept : eatEndWhite (name ++ '=' :: value) = name ++ '=' :: value := by
    apply eatEndWhite_back
    have back := trimmed.back
    rw [getLast?_append, getLast?_cons]
    cases last : value.getLast? with
    | none => exact (by decide : some '=' ≠ some ' ')
    | some =>
      rw [last] at back
      exact back
  have header : ((name ++ '=' :: value).head? == some '[') = false := by
    rw [head?_append_of_ne_nil _ ok.nonempty]
    exact beq_eq_false_iff_ne.mpr fun same => ok.bracket (mem_of_head? same)
  rw [IniFile.addLine]
  rw [kept, header, held]
  dsimp only
  rw [add_assignment ok trimmed]
  rfl

end Adding

abbrev Assignment := Text × Text × Text

def Assignment.key (assignment : Assignment) : Text × Text := (assignment.1, assignment.2.1)

def Holds (db : IniFile) (assignments : List Assignment) : Prop :=
  ∀ path name value, db.find path name = some value ↔ (path, name, value) ∈ assignments

section Holding
variable {db : IniFile} {assignments : List Assignment} {path name value : Text}

theorem holds_empty : Holds IniFile.empty [] := fun _ _ _ => ⟨nofun, nofun⟩

theorem find_of_held (held : db path = some table) (name : Text) : db.find path name = table name := by
  rw [IniFile.find, held]
  rfl

theorem Holds.addSection (holds : Holds db assignments) (path : Text) :
    Holds (db.addSection path) assignments ∧ ∃ table, db.addSection path path = some table := by
  unfold IniFile.addSection
  cases held : db path with
  | some table => exact ⟨holds, table, held⟩
  | none =>
    dsimp only
    refine ⟨fun other name value => ?_, _, update_self ..⟩
    rw [← holds other name value]
    by_cases same : other = path
    · have before : db.find path name = none := by rw [IniFile.find, held]; rfl
      have after := find_of_held (update_self path (some fun _ => none) db) name
      rw [same, before, after]
    · rw [IniFile.find, IniFile.find, update_of_ne same]

theorem Holds.assign (holds : Holds db assignments) (held : db path = some table)
    (fresh : (path, name) ∉ assignments.map Assignment.key) :
    Holds (update db path (some (table.addEntry name value false))) (assignments ++ [(path, name, value)]) := by
  have absent : table name = none := by
    rw [← find_of_held held, Option.eq_none_iff_forall_ne_some]
    intro old found
    exact fresh (mem_map.mpr ⟨_, (holds path name old).mp found, rfl⟩)
  have added : table.addEntry name value false = update table name (some value) := by
    rw [IniFile.Section.addEntry, absent]
  intro other key found
  rw [mem_append, mem_singleton, ← holds other key found, added]
  by_cases section_ : other = path
  · rw [section_, find_of_held (update_self path _ db), find_of_held held]
    by_cases entry : key = name
    · rw [entry, update_self, absent]
      simp [eq_comm]
    · rw [update_of_ne entry]
      simp [entry]
  · rw [IniFile.find, update_of_ne section_, ← IniFile.find]
    simp [section_]

end Holding

def assignmentText (entry : Text × Text) : Text := entry.1 ++ '=' :: entry.2 ++ ['\n']

def sectionText (section_ : Text × List (Text × Text)) : Text :=
  ['\n'] ++ ('[' :: section_.1 ++ [']'] ++ ['\n']) ++ section_.2.flatMap assignmentText

def assignmentsOf (section_ : Text × List (Text × Text)) : List Assignment :=
  section_.2.map fun entry => (section_.1, entry)

/-- A line that is read back as written. -/
structure EntryOk (entry : Text × Text) : Prop where
  name : NameOk entry.1
  value : Trimmed entry.2
  line : '\n' ∉ entry.2

structure PathOk (path : Text) : Prop where
  trimmed : Trimmed path
  line : '\n' ∉ path

section Loading
variable {db : IniFile} {assignments : List Assignment} {path : Text}

theorem reaches_entry {entry : Text × Text} (held : db path = some table) (ok : EntryOk entry) :
    Reaches db (some path) (assignmentText entry) (update db path (some (table.addEntry entry.1 entry.2 false))) (some path) := by
  apply reaches_line _ _ (addLine_entry held ok.name ok.value)
  · obtain ⟨first, _, name⟩ := exists_cons_of_ne_nil ok.name.nonempty
    have solid := ok.name.spaces first (by rw [name]; exact mem_cons_self)
    rw [name]
    exact (congrArg not solid).trans rfl
  · rw [mem_append, mem_cons]
    rintro (inside | same | inside)
    · have space := ok.name.spaces _ inside
      cases space
    · exact absurd same (by decide)
    · exact ok.line inside

theorem reaches_entries (holds : Holds db assignments) (held : ∃ table, db path = some table) {entries : List (Text × Text)}
    (ok : ∀ entry ∈ entries, EntryOk entry) (distinct : ((assignments ++ assignmentsOf (path, entries)).map Assignment.key).Nodup) :
    ∃ next, Reaches db (some path) (entries.flatMap assignmentText) next (some path) ∧
      Holds next (assignments ++ assignmentsOf (path, entries)) := by
  induction entries generalizing db assignments with
  | nil => exact ⟨db, .refl, by rw [assignmentsOf, map_nil, append_nil]; exact holds⟩
  | cons entry entries ih =>
    obtain ⟨first, others⟩ := forall_mem_cons.mp ok
    obtain ⟨table, held⟩ := held
    have moved : assignments ++ assignmentsOf (path, entry :: entries) =
        (assignments ++ [(path, entry.1, entry.2)]) ++ assignmentsOf (path, entries) := append_cons ..
    rw [moved] at distinct ⊢
    have fresh : (path, entry.1) ∉ assignments.map Assignment.key := by
      rw [map_append, map_append] at distinct
      have apart := (nodup_append.mp (nodup_append.mp distinct).1).2.2
      intro member
      exact apart _ member _ (mem_singleton_self _) rfl
    obtain ⟨next, reaches, kept⟩ := ih (holds.assign held fresh) ⟨_, update_self ..⟩ others distinct
    exact ⟨next, (reaches_entry held first).append reaches, kept⟩

theorem reaches_section (current : Option Text) (holds : Holds db assignments) {section_ : Text × List (Text × Text)} (named : PathOk section_.1)
    (ok : ∀ entry ∈ section_.2, EntryOk entry) (distinct : ((assignments ++ assignmentsOf section_).map Assignment.key).Nodup) :
    ∃ next after, Reaches db current (sectionText section_) next after ∧ Holds next (assignments ++ assignmentsOf section_) := by
  obtain ⟨added, table⟩ := holds.addSection section_.1
  obtain ⟨next, reaches, kept⟩ := reaches_entries added table ok distinct
  refine ⟨next, some section_.1, (reaches_blank.append (reaches_line rfl ?_ (addLine_header named.trimmed))).append reaches, kept⟩
  rw [mem_append, mem_cons, mem_singleton]
  rintro ((same | inside) | same)
  · exact absurd same (by decide)
  · exact named.line inside
  · exact absurd same (by decide)

theorem reaches_sections (current : Option Text) (holds : Holds db assignments) {sections : List (Text × List (Text × Text))}
    (named : ∀ section_ ∈ sections, PathOk section_.1) (ok : ∀ section_ ∈ sections, ∀ entry ∈ section_.2, EntryOk entry)
    (distinct : ((assignments ++ sections.flatMap assignmentsOf).map Assignment.key).Nodup) :
    ∃ next after, Reaches db current (sections.flatMap sectionText) next after ∧
      Holds next (assignments ++ sections.flatMap assignmentsOf) := by
  induction sections generalizing db assignments current with
  | nil => exact ⟨db, current, .refl, by rw [flatMap_nil, append_nil]; exact holds⟩
  | cons section_ sections ih =>
    obtain ⟨firstNamed, named⟩ := forall_mem_cons.mp named
    obtain ⟨firstOk, ok⟩ := forall_mem_cons.mp ok
    have moved : assignments ++ (section_ :: sections).flatMap assignmentsOf =
        (assignments ++ assignmentsOf section_) ++ sections.flatMap assignmentsOf := by
      rw [flatMap_cons, append_assoc]
    rw [moved] at distinct ⊢
    have early := distinct
    rw [map_append] at early
    obtain ⟨_, between, first, kept⟩ := reaches_section current holds firstNamed firstOk (nodup_append.mp early).1
    obtain ⟨next, after, rest, final⟩ := ih between kept named ok distinct
    exact ⟨next, after, by rw [flatMap_cons]; exact first.append rest, final⟩

/-- What was written is loaded, and nothing more. -/
theorem load_sections {heading : Text} {first : Char} (start : heading.head? = some first) (solid : isSpace first = false)
    (plain : first ≠ '[') (line : '\n' ∉ heading) {sections : List (Text × List (Text × Text))}
    (named : ∀ section_ ∈ sections, PathOk section_.1) (ok : ∀ section_ ∈ sections, ∀ entry ∈ section_.2, EntryOk entry)
    (distinct : ((sections.flatMap assignmentsOf).map Assignment.key).Nodup) :
    ∃ db, IniFile.empty.load (heading ++ ['\n'] ++ sections.flatMap sectionText) = .ok (db, true) ∧
      Holds db (sections.flatMap assignmentsOf) := by
  have blank : first ≠ ' ' := by
    rintro rfl
    cases solid
  have headed : Reaches IniFile.empty none (heading ++ ['\n']) IniFile.empty none := by
    apply reaches_line _ line (addLine_outside start blank plain)
    rw [start]
    exact (congrArg not solid).trans rfl
  obtain ⟨db, _, reaches, holds⟩ := reaches_sections none holds_empty named ok distinct
  refine ⟨db, ?_, holds⟩
  have whole := (headed.append reaches) [] db loads_end
  rw [append_nil] at whole
  exact whole _ (Nat.lt_succ_self _)

end Loading

end ImcGem5.Base.Proofs.IniFile
