import CLib.Mysql.Checker

namespace CLib.Mysql
open CLib.Base

/-- A decimal `dbhost` that fits its field of `davinci_log_rec_t`. -/
structure Host where
  text : Text
  ne_nil : text ≠ []
  digits : ∀ c ∈ text, c.isDigit
  length_lt : text.length < strLen

section Tables
variable {normalize : Text → UInt32} {ml : Bool} {c c' : Caches} {dbhost sql : Text} {a : Answers}

theorem acceptSql_exception (key : Text) (id : UInt32) :
    (acceptSql ml c key id a).1.exception = c.exception := by
  unfold acceptSql
  split_ifs
  · rfl
  · cases a.ml <;> rfl
  · rfl

theorem rejectSql_exception (id : UInt32) : (rejectSql c id a).1.exception = c.exception := by
  unfold rejectSql
  split_ifs <;> rfl

theorem sqlCheckSql_exception :
    (sqlCheckSql normalize ml c dbhost sql a).1.exception = c.exception := by
  unfold sqlCheckSql
  dsimp only
  split_ifs <;> simp only [acceptSql_exception, rejectSql_exception]

end Tables

section Cut

theorem Host.not_mem_of_not_digit (D : Host) {ch : Char} (h : ch.isDigit = false) : ch ∉ D.text :=
  fun hmem => by simp [D.digits ch hmem] at h

theorem strstr_separator (D : Host) (sql : Text) :
    strstr (D.text ++ (separator ++ sql)) separator = some (separator ++ sql) := by
  have hhash : '#' ∉ D.text := D.not_mem_of_not_digit (by decide)
  exact (strstr_append_of_not_mem hhash (separator ++ sql) _).trans (strstr_append_self sql separator)

theorem snprintf_host (D : Host) (rest : Text) :
    snprintf ((D.text ++ rest).length - rest.length) (D.text ++ rest) = D.text.dropLast := by
  rw [List.length_append, Nat.add_sub_cancel, snprintf, List.dropLast_eq_take,
    List.take_append_of_le_length (Nat.sub_le _ _)]

theorem insertException_option (normalize : Text → UInt32) (c : Caches) (D : Host) (sql : Text)
    (executes : Bool) :
    insertException normalize c (D.text ++ (separator ++ sql)) executes =
      let newId := cacheKey D.text.dropLast (sqlId normalize sql)
      if newId ∉ c.exception ∧ executes then
        some ({ c with exception := newId :: c.exception }, true)
      else some (c, false) := by
  rw [insertException, strstr_separator]
  -- What is left is the size argument, the length of the host without room for the NUL.
  dsimp only
  rw [snprintf_host]
  rfl

end Cut

section Examples

def emptyCaches : Caches := ⟨[], [], [], [], 0, 0, 0, 0⟩

end Examples

end CLib.Mysql
