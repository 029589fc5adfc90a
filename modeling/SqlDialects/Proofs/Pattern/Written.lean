import SqlDialects.Pattern.Written
import SqlDialects.Proofs.Conversion.TreePath
import SqlDialects.Proofs.Rules.Patterns

/-
The patterns of the text rules in writing. Each pattern of a pipeline replaces what its written form
replaces when it is read: the two have the same matches, though they group their parts differently and a
sign without cases is a letter in the one and a character in the other.
-/
namespace SqlDialects

namespace Pattern

/-! Patterns with the same matches. -/

def Alike (p q : Pattern) : Prop := ∀ cursor, p.ends cursor = q.ends cursor

theorem Alike.replaceAll {p q : Pattern} (alike : Alike p q) (write : Match → List Char)
    (s : List Char) : p.replaceAll write s = q.replaceAll write s := by
  have same : ∀ before s, p.matchAt? before s = q.matchAt? before s := by
    intro before s
    rw [matchAt?, matchAt?, alike]
  have everywhere : ∀ before skip closed, replaceFrom p write before skip closed s
      = replaceFrom q write before skip closed s := by
    induction s with
    | nil =>
      intro before skip closed
      cases skip <;> simp only [replaceFrom, same]
    | cons c s ih =>
      intro before skip closed
      cases skip with
      | zero => simp only [replaceFrom, same, ih]
      | succ skip => simp only [replaceFrom, ih]
  exact everywhere none 0 false

theorem sequence_cons (p : Pattern) (parts : List Pattern) :
    sequence (p :: parts) = .seq p (sequence parts) := rfl

theorem ends_sequence_append (front back : List Pattern) (cursor : Cursor) :
    (sequence (front ++ back)).ends cursor
      = ((sequence front).ends cursor).flatMap (sequence back).ends := by
  induction front generalizing cursor with
  | nil => exact (List.append_nil _).symm
  | cons p front ih =>
    rw [List.cons_append, sequence_cons, sequence_cons, ends_seq, ends_seq, List.flatMap_assoc]
    exact List.flatMap_congr fun next _ => ih next

theorem ends_sequence_one (p : Pattern) (cursor : Cursor) :
    (sequence [p]).ends cursor = p.ends cursor := by
  rw [sequence_cons, ends_seq]
  exact List.flatMap_singleton' _

/-- The signs of the text rules, which have one case only. -/
def signs : List Char := ['(', ')', ',']

theorem toLower_solid {c d : Char} (solid : c.isAlpha = false) (same : d.toLower = c) : d = c := by
  have unchanged : d.toLower = d := by
    refine Char.toLower_eq_of_not_isUpper fun upper => ?_
    rw [← same, Char.isAlpha_toLower_eq_isAlpha, Char.isAlpha, upper] at solid
    cases solid
  rw [← unchanged, same]

theorem foldCase_sign {c d : Char} (sign : c ∈ signs) : foldCase d = foldCase c ↔ d = c := by
  have shape : ∀ c ∈ signs, c.isAlpha = false ∧ foldCase c = c ∧ c ≠ 's' ∧ c ≠ 'k' := by
    simp [signs, foldCase]
  obtain ⟨solid, fixed, long, kelvin⟩ := shape c sign
  rw [fixed]
  constructor
  · intro same
    rw [foldCase] at same
    split at same
    · exact absurd same.symm long
    · split at same
      · exact absurd same.symm kelvin
      · exact toLower_solid solid same
  · rintro rfl
    exact fixed

theorem ends_sign {c : Char} (sign : c ∈ signs) (cursor : Cursor) :
    (letter c).ends cursor = (char c).ends cursor := by
  have same : (fun d => foldCase d == foldCase c) = (· == c) := by
    funext d
    rw [Bool.eq_iff_iff, beq_iff_eq, beq_iff_eq, foldCase_sign sign]
  rw [ends_letter, ends_char, same]

/-- The parts that a pattern matches one after the other, with letters for signs. -/
def parts : Pattern → List Pattern
  | .empty => []
  | .char c => [if c ∈ signs then .letter c else .char c]
  | .seq first second => first.parts ++ second.parts
  | .group number inner => [.group number (sequence inner.parts)]
  | .either first second => [.either (sequence first.parts) (sequence second.parts)]
  | .star inner => [.star (sequence inner.parts)]
  | p => [p]

theorem ends_parts (p : Pattern) (cursor : Cursor) : (sequence p.parts).ends cursor = p.ends cursor := by
  induction p generalizing cursor with
  | empty => rfl
  | char c =>
    rw [parts, ends_sequence_one]
    split
    · next sign => exact ends_sign sign cursor
    · rfl
  | seq first second ihf ihs =>
    rw [parts, ends_sequence_append, ends_seq, ihf]
    exact List.flatMap_congr fun next _ => ihs next
  | group number inner ih => rw [parts, ends_sequence_one, ends_group, ends_group, ih]
  | either first second ihf ihs =>
    rw [parts, ends_sequence_one, ends_either, ends_either, ihf, ihs]
  | star inner ih => rw [parts, ends_sequence_one, ends_star, ends_star, funext ih]
  | _ => exact ends_sequence_one _ cursor

theorem alike_of_parts {p q : Pattern} (same : p.parts = q.parts) : Alike p q := by
  intro cursor
  rw [← ends_parts, same, ends_parts]

/-! Reading a word. -/

/-- The text is read as a pattern that replaces what the given one replaces. -/
def Reads (text : String) (p : Pattern) : Prop :=
  ∃ read, ofText? text = some read ∧ ∀ write s, read.replaceAll write s = p.replaceAll write s

theorem reads_of_parts {text : String} {p : Pattern}
    (same : (ofText? text).map parts = some p.parts) : Reads text p := by
  obtain ⟨read, found, equal⟩ := Option.map_eq_some_iff.mp same
  exact ⟨read, found, (alike_of_parts equal).replaceAll⟩

section Words

variable {nested : Nat → Reader (Pattern × Nat)}

theorem plain_unlike {c d : Char} (plain : specialCharacters.contains c = false)
    (special : d ∈ specialCharacters) : c ≠ d := by
  rintro rfl
  exact absurd (List.contains_iff_mem.mpr special) (by rw [plain]; decide)

theorem unit_plain {c : Char} (plain : specialCharacters.contains c = false) (count : Nat)
    (s : List Char) : unit true nested count (c :: s) = .ok ((.letter c, count), s) := by
  have known : ∀ {d : Char}, d ∈ specialCharacters → c ≠ d := plain_unlike plain
  unfold unit
  split
  · next same => exact absurd (List.cons.inj same).1 (known (by decide))
  · next same => exact absurd (List.cons.inj same).1 (known (by decide))
  · next same => exact absurd (List.cons.inj same).1 (known (by decide))
  · next same =>
    obtain ⟨rfl, rfl⟩ := List.cons.inj same
    rw [plain]
    rfl
  · next same => cases same

def repeats : List Char := ['*', '+', '?']

theorem repeats_special : ∀ c ∈ repeats, c ∈ specialCharacters := by
  simp [repeats, specialCharacters]

theorem repeated_once {t s : List Char} {p : Pattern} {count last : Nat}
    (read : unit true nested count t = .ok ((p, last), s)) (once : ∀ d ∈ s.head?, d ∉ repeats) :
    repeated true nested count t = .ok ((p, last), s) := by
  rw [repeated, Reader.bind_of_ok read]
  dsimp only
  split
  · exact absurd (by decide) (once '*' rfl)
  · exact absurd (by decide) (once '+' rfl)
  · exact absurd (by decide) (once '?' rfl)
  · rfl

theorem word_once {w rest : List Char} (plain : ∀ c ∈ w, specialCharacters.contains c = false)
    (once : ∀ d ∈ rest.head?, d ∉ repeats) : ∀ d ∈ (w ++ rest).head?, d ∉ repeats := by
  cases w with
  | nil => exact once
  | cons c w =>
    intro d begins repeating
    obtain rfl := Option.some.inj begins
    exact plain_unlike (plain c List.mem_cons_self) (repeats_special c repeating) rfl

theorem units_cons {c : Char} (inside : c ≠ '|' ∧ c ≠ ')') (b : Char) (bound : List Char) (count : Nat)
    (s : List Char) :
    unitsWithin true nested (b :: bound) count (c :: s)
      = (do
          let (first, middle) ← repeated true nested count
          let (rest, last) ← unitsWithin true nested bound middle
          pure (.seq first rest, last) : Reader (Pattern × Nat)) (c :: s) := by
  rw [unitsWithin]
  dsimp only
  split
  · next same => cases same
  · next same => exact absurd (List.cons.inj same).1 inside.1
  · next same => exact absurd (List.cons.inj same).1 inside.2
  · rfl

theorem units_word {w rest stop : List Char} {count last least : Nat} {p : Pattern}
    (plain : ∀ c ∈ w, specialCharacters.contains c = false) (once : ∀ d ∈ rest.head?, d ∉ repeats)
    (read : ∀ bound : List Char, least ≤ bound.length →
      unitsWithin true nested bound count rest = .ok ((p, last), stop)) :
    ∀ bound : List Char, w.length + least ≤ bound.length →
      unitsWithin true nested bound count (w ++ rest)
        = .ok ((w.foldr (fun c p => .seq (.letter c) p) p, last), stop) := by
  induction w with
  | nil => exact fun bound enough => read bound (by simpa using enough)
  | cons c w ih =>
    intro bound enough
    obtain ⟨first, later⟩ := List.forall_mem_cons.mp plain
    cases bound with
    | nil =>
      rw [List.length_cons, List.length_nil] at enough
      omega
    | cons b bound =>
      rw [List.length_cons, List.length_cons] at enough
      rw [List.cons_append,
        units_cons ⟨plain_unlike first (by decide), plain_unlike first (by decide)⟩,
        Reader.bind_of_ok (repeated_once (unit_plain first count _) (word_once later once))]
      dsimp only
      rw [Reader.bind_of_ok (ih later bound (by omega))]
      rfl

end Words

theorem writtenWithin_units {s : List Char} {p : Pattern} {count : Nat} (depth : Nat)
    (read : ∀ nested, unitsWithin true nested s count s = .ok ((p, count), [])) :
    writtenWithin true (depth + 1) count s = .ok ((p, count), []) := by
  rw [writtenWithin]
  dsimp only
  rw [alternativesWithin]
  exact (Reader.bind_of_ok (r := fun s => unitsWithin true (writtenWithin true depth) s count s)
    (read _)).trans rfl

theorem ofText_word {source tail : String} {p : Pattern} {least : Nat}
    (plain : ∀ c ∈ source.toList, specialCharacters.contains c = false)
    (once : ∀ d ∈ tail.toList.head?, d ∉ repeats) (short : least ≤ tail.toList.length)
    (read : ∀ nested (bound : List Char), least ≤ bound.length →
      unitsWithin true nested bound 0 tail.toList = .ok ((p, 0), [])) :
    ofText? ("(?i)\\b" ++ source ++ tail)
      = some (.seq .boundary (source.toList.foldr (fun c p => .seq (.letter c) p) p)) := by
  have text : ("(?i)\\b" ++ source ++ tail).toList
      = '(' :: '?' :: 'i' :: ')' :: '\\' :: 'b' :: (source.toList ++ tail.toList) := by
    simp
  have units : ∀ nested, unitsWithin true nested ('\\' :: 'b' :: (source.toList ++ tail.toList)) 0
      ('\\' :: 'b' :: (source.toList ++ tail.toList))
      = .ok ((.seq .boundary (source.toList.foldr (fun c p => .seq (.letter c) p) p), 0), []) := by
    intro nested
    have behind := units_word plain once (read nested) ('b' :: (source.toList ++ tail.toList)) (by
      rw [List.length_cons, List.length_append]
      omega)
    have edge : unit true nested 0 ('\\' :: 'b' :: (source.toList ++ tail.toList))
        = .ok ((.boundary, 0), source.toList ++ tail.toList) := rfl
    rw [units_cons (by decide), Reader.bind_of_ok (repeated_once edge (word_once plain once))]
    dsimp only
    rw [Reader.bind_of_ok behind]
    rfl
  have read := writtenWithin_units ('\\' :: 'b' :: (source.toList ++ tail.toList)).length units
  rw [ofText?, text]
  simp only [read]

theorem letters_parts (w : List Char) (p : Pattern) :
    (w.foldr (fun c p => .seq (.letter c) p) p).parts = w.map .letter ++ p.parts := by
  induction w with
  | nil => rfl
  | cons c w ih => rw [List.foldr_cons, parts, ih]; rfl

theorem anyCase_parts (word : String) : (anyCase word).parts = word.toList.map .letter := by
  rw [anyCase]
  generalize word.toList = w
  induction w with
  | nil => rfl
  | cons c w ih => rw [List.map_cons, sequence_cons, parts, ih]; rfl

end Pattern

namespace TextRule

open Pattern (Reads reads_of_parts anyCase sequence)

/-- What stands behind the name in the pattern of a call, in writing. -/
def callTail (niladic : Bool) : String := if niladic then "\\s*\\(\\s*\\)" else "\\s*\\("

theorem units_call (niladic : Bool) (nested : Nat → Reader (Pattern × Nat)) (bound : List Char)
    (enough : 4 ≤ bound.length) :
    Pattern.unitsWithin true nested bound 0 (callTail niladic).toList
      = .ok ((.seq (.star .blank) (.seq (.letter '(') (if niladic then
          .seq (.star .blank) (.seq (.letter ')') .empty) else .empty)), 0), []) := by
  obtain ⟨a, b, c, d, bound, rfl⟩ : ∃ a b c d rest, bound = a :: b :: c :: d :: rest := by
    match bound, enough with
    | a :: b :: c :: d :: rest, _ => exact ⟨a, b, c, d, rest, rfl⟩
  cases niladic with
  | false =>
    rw [callTail, if_neg (by decide), show "\\s*\\(".toList = ['\\', 's', '*', '\\', '('] by simp]
    rfl
  | true =>
    rw [callTail, if_pos rfl, show "\\s*\\(\\s*\\)".toList
      = ['\\', 's', '*', '\\', '(', '\\', 's', '*', '\\', ')'] by simp]
    cases bound <;> rfl

def pattern? (rule : TextRule) : Option Pattern :=
  match rule.action with
  | .replace pattern _ | .compose pattern _ => some pattern
  | .edit _ => none

def writtenCall (source target : String) : String :=
  "(?i)\\b" ++ source ++ callTail (isNiladic target)

theorem renameRule_reads {source : String}
    (plain : ∀ c ∈ source.toList, Pattern.specialCharacters.contains c = false) (target : String) :
    ∃ pattern, (renameRule source target).pattern? = some pattern
      ∧ Reads (writtenCall source target) pattern := by
  have read := @Pattern.ofText_word source (callTail (isNiladic target)) _ 4 plain
    (by cases isNiladic target <;> simp [callTail, Pattern.repeats])
    (by cases isNiladic target <;> simp [callTail]) (units_call _)
  rw [renameRule, writtenCall]
  cases niladic : isNiladic target with
  | false | true =>
    rw [niladic] at read
    refine ⟨_, rfl, reads_of_parts ?_⟩
    rw [read, Option.map_some]
    simp [Pattern.parts, Pattern.letters_parts, Pattern.anyCase_parts, Pattern.signs, Pattern.sequence,
      blanks]

/-! The rules of a pair. -/

def writtenComma : String := "(?i)\\bLIMIT\\s+(\\d+)\\s*,\\s*(\\d+)"

def writtenOffset : String := "(?i)\\bLIMIT\\s+(\\d+)\\s+OFFSET\\s+(\\d+)"

def writtenLimit : String := "(?i)\\bLIMIT\\s+(\\d+)"

def writtenFetch : String :=
  "(?i)(?:\\bOFFSET\\s+(\\d+)\\s+ROWS?\\s+)?\\bFETCH\\s+(?:FIRST|NEXT)\\s+(\\d+)\\s+ROWS?\\s+ONLY"

def writtenIlike : String := "(?i)\\bILIKE\\b"

theorem limits_read : Reads writtenComma limitComma ∧ Reads writtenOffset limitOffset
    ∧ Reads writtenLimit limitAlone ∧ Reads writtenFetch fetchFirst
    ∧ Reads writtenIlike (sequence [.boundary, anyCase "ILIKE", .boundary]) :=
  ⟨reads_of_parts (by decide +kernel), reads_of_parts (by decide +kernel),
    reads_of_parts (by decide +kernel), reads_of_parts (by decide +kernel),
    reads_of_parts (by decide +kernel)⟩

def writtenLimits (pair : Pair) : List String :=
  (if pair.source = .mysql then [writtenComma] else [])
    ++ (match pair.source.rowLimit, pair.target.rowLimit with
      | .limit, .fetchFirst => [writtenOffset, writtenLimit]
      | _, .limit => if pair.target = .mysql then [writtenFetch] else []
      | _, _ => [])

/-- The patterns of a pair's pipeline in writing, in the order of its rules. -/
def writtenPatterns (pair : Pair) : List String :=
  if pair.isIdentity || !(pair.source == .mysql || pair.source == .postgresql) then []
  else
    (FunctionMapping.table pair).filterMap (fun mapping =>
        mapping.action.target?.map (writtenCall mapping.source))
      ++ writtenLimits pair
      ++ (if pair.source = .postgresql ∧ pair.target = .mysql then [writtenIlike] else [])

theorem sources_plain : allMappings.all (fun mapping =>
    mapping.source.toList.all (!Pattern.specialCharacters.contains ·)) = true := by
  decide +kernel

theorem renames_read (table : List FunctionMapping) (listed : ∀ mapping ∈ table, mapping ∈ allMappings) :
    List.Forall₂ Reads
      (table.filterMap fun mapping => mapping.action.target?.map (writtenCall mapping.source))
      ((table.filterMap fun mapping =>
        mapping.action.target?.map (renameRule mapping.source)).filterMap pattern?) := by
  induction table with
  | nil => exact .nil
  | cons mapping table ih =>
    obtain ⟨first, later⟩ := List.forall_mem_cons.mp listed
    rw [List.filterMap_cons, List.filterMap_cons]
    cases mapping.action.target? with
    | none => exact ih later
    | some target =>
      have plain : ∀ c ∈ mapping.source.toList, Pattern.specialCharacters.contains c = false := by
        intro c member
        have known := List.all_eq_true.mp (List.all_eq_true.mp sources_plain mapping first) c member
        simpa using known
      obtain ⟨pattern, found, read⟩ := renameRule_reads plain target
      rw [Option.map_some, Option.map_some, List.filterMap_cons, found]
      exact .cons read (ih later)

theorem rowLimits_read (pair : Pair) :
    List.Forall₂ Reads (writtenLimits pair) ((rowLimits pair).filterMap pattern?) := by
  obtain ⟨comma, offset, limit, fetch, _⟩ := limits_read
  have first : ∀ form, List.Forall₂ Reads [writtenComma] ([limitCommaRule form].filterMap pattern?) := by
    intro form
    cases form <;> exact .cons comma .nil
  have fetched : List.Forall₂ Reads (if pair.target = .mysql then [writtenFetch] else [])
      ((if pair.target = .mysql then [fetchFirstRule] else []).filterMap pattern?) := by
    split
    · exact .cons fetch .nil
    · exact .nil
  rw [writtenLimits, rowLimits, List.filterMap_append]
  refine List.rel_append ?_ ?_
  · split
    · exact first _
    · exact .nil
  · cases pair.source.rowLimit with
    | limit =>
      cases pair.target.rowLimit with
      | fetchFirst => exact .cons offset (.cons limit .nil)
      | limit => exact fetched
    | fetchFirst =>
      cases pair.target.rowLimit with
      | fetchFirst => exact .nil
      | limit => exact fetched

theorem quotes_unread (pair : Pair) : (quotes pair).filterMap pattern? = [] := by
  rw [quotes]
  split <;> rfl

theorem operators_read (pair : Pair) :
    List.Forall₂ Reads
      (if pair.source = .postgresql ∧ pair.target = .mysql then [writtenIlike] else [])
      ((operators pair).filterMap pattern?) := by
  obtain ⟨_, _, _, _, ilike⟩ := limits_read
  rw [operators]
  split
  · exact .cons ilike .nil
  · exact .nil

/-- The patterns of a pair's rules do what the patterns do that are read from their written forms. -/
theorem pipeline_read (pair : Pair) :
    List.Forall₂ Reads (writtenPatterns pair) ((pipeline pair).filterMap pattern?) := by
  rw [writtenPatterns, pipeline]
  split
  · exact .nil
  · rw [List.filterMap_append, List.filterMap_append, List.filterMap_append, quotes_unread,
      List.append_nil]
    exact List.rel_append (List.rel_append
      (renames_read _ fun mapping listed => table_listed listed) (rowLimits_read pair))
      (operators_read pair)

end TextRule

end SqlDialects
