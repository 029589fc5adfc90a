import SqlDialects.Proofs.Conversion.ColumnNames
import SqlDialects.Proofs.Grammar.Script

/-
Data types that are read, mapped and written. Whatever spelling a type was read from, its name is one word
in upper case or two of them, and so is the name that a pair has for it. Such a type is read back from its
text, but for a scale that stands without a precision, which is not written.
-/
namespace SqlDialects

open Reader

theorem dataType_blank {s : List Char} (solid : afterGap s = none) :
    dataType (' ' :: s) = dataType s := by
  have spaced : gaps (' ' :: s) = .ok ((), s) :=
    congrArg (fun s => Except.ok ((), s)) (gap_blank solid)
  have close : gaps s = .ok ((), s) :=
    congrArg (fun s => Except.ok ((), s)) (skipGaps_of_none s solid)
  rw [dataType, bind_of_ok spaced, bind_of_ok close]

theorem endsType_nil : EndsType [] where
  word := endsWord_nil
  suffix := by decide
  uncalled := by decide

theorem ofText_isTypeName {text : String} {type : DataType} (read : DataType.ofText text = .ok type) :
    isTypeName type.name = true := by
  rw [DataType.ofText] at read
  split at read
  · next found rest whole =>
    cases read
    obtain ⟨type, middle, first, later⟩ := bind_ok whole
    obtain ⟨_, _, _, later⟩ := bind_ok later
    obtain ⟨_, _, _, later⟩ := bind_ok later
    cases later
    exact dataType_isTypeName first
  · cases read

section Written

variable {type : DataType} (named : isTypeName type.name = true)
include named

theorem toSql_word : ∃ word rest, IsWord word ∧ type.toSql.toList = word ++ rest := by
  rw [DataType.toSql_parameters]
  rcases isTypeName_cases named with typed | ⟨word, suffix, typed, _, split⟩
  · exact ⟨_, _, (isTypeWord_shape typed).1, rfl⟩
  · exact ⟨word, _, (isTypeWord_shape typed).1, by rw [split, List.append_assoc]⟩

theorem toSql_trimmed : Trimmed type.toSql.toList where
  begins := by
    obtain ⟨word, rest, shape, split⟩ := toSql_word named
    obtain ⟨c, first, start⟩ := word_head shape rest
    exact ⟨c, by rw [split, first], not_blank_of_nameCharacter (nameCharacter_of_nameStart c start)⟩
  ends := (type_line named).2

theorem ofText_toSql : DataType.ofText type.toSql = .ok type.asWritten := by
  have solid : afterGap type.toSql.toList = none := by
    obtain ⟨word, rest, shape, split⟩ := toSql_word named
    rw [split]
    exact word_solid shape rest
  have first : dataType type.toSql.toList = .ok (type.asWritten, []) := by
    have read := dataType_written named endsType_nil
    rwa [List.append_nil, dataType_blank solid] at read
  rw [DataType.ofText, (toSql_trimmed named).trim]
  have whole : (do
      let type ← dataType
      gaps
      finish
      pure type : Reader DataType) type.toSql.toList = .ok (type.asWritten, []) :=
    bind_of_ok first
  rw [whole]

end Written

/-- The type that a pair has for a type that was read is read back from its text, without the scale where
there is no precision. -/
theorem mapped_type_reads_back {text : String} {type : DataType}
    (read : DataType.ofText text = .ok type) (pair : Pair) :
    DataType.ofText (type.mapped pair).toSql
      = .ok { type.mapped pair with
        scale := if (type.mapped pair).precision = none then none else (type.mapped pair).scale } := by
  rw [ofText_toSql (mapped_isTypeName pair (ofText_isTypeName read)), DataType.asWritten]
  cases given : (type.mapped pair).precision <;> simp [given]

/-- A type in small letters, with a comment, a sign, a unit, a missing precision and one argument too
many, is read back from what stands for it. -/
theorem spaced_type_reads_back :
    DataType.ofText " character /* of */ varying(* , +7 BYTE, x) "
        = .ok ⟨"CHARACTER VARYING", none, some 7⟩
      ∧ DataType.ofText (DataType.toSql (DataType.mapped ⟨.postgresql, .oracle⟩
          ⟨"CHARACTER VARYING", none, some 7⟩))
        = .ok ⟨"VARCHAR2", some 255, some 7⟩
      ∧ DataType.ofText (DataType.toSql (DataType.mapped ⟨.mysql, .oracle⟩
          ⟨"CHARACTER VARYING", none, some 7⟩))
        = .ok ⟨"CHARACTER VARYING", none, none⟩ := by
  have read : DataType.ofText " character /* of */ varying(* , +7 BYTE, x) "
      = .ok ⟨"CHARACTER VARYING", none, some 7⟩ := by
    decide +kernel
  exact ⟨read, (mapped_type_reads_back read _).trans (by decide +kernel),
    (mapped_type_reads_back read _).trans (by decide +kernel)⟩

end SqlDialects
