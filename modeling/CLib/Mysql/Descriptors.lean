import CLib.Base.Descriptors
import CLib.Mysql.Actions

namespace CLib.Mysql
open CLib.Base

/-- The actions on descriptors among those of a call. -/
def fdActions (as : List Action) : List FdAction :=
  as.filterMap fun
    | .socket fd => some (.opens fd)
    | .close fd => some (.closes fd)
    | _ => none

/-- The table of open descriptors is as it was, and only descriptors that the call
opened itself were closed. -/
structure Framed (table : Finset ℕ) (as : List FdAction) : Prop where
  table : openAfter table as = table
  own : ClosesOwn ∅ as

/-- The check does not get to its common end without a socket of its own, and the
machine-learning server answers with `0` or `1`. -/
def ClosesItsSocket (normalize : Text → UInt32) (ml : Bool) (c : Caches) (dbhost sql : Text)
    (r : Replies) : Prop :=
  CutShort normalize c dbhost sql ∨
    if r.checkSqlSucceeds then r.reMatches ∨ ml ∧ r.ml ≠ .other
    else ¬ (r.errorBinds ∧ r.errorExecutes)

section
variable {table : Finset ℕ} {fd : ℕ}

theorem framed_nil (table : Finset ℕ) : Framed table [] := ⟨rfl, trivial⟩

theorem framed_opens_closes (h : fd ∉ table) : Framed table [.opens fd, .closes fd] := by
  have hown : ClosesOwn ∅ [.opens fd, .closes fd] := ⟨by simp, trivial⟩
  refine ⟨openAfter_of_closesOwn ⟨h, trivial⟩ hown ?_, hown⟩
  simp [openAfter]

/-- A socket that is left open. -/
theorem not_framed_opens (h : fd ∉ table) : ¬ Framed table [.opens fd] := by
  intro hframed
  have hmem : fd ∈ openAfter table [.opens fd] := Finset.mem_insert_self fd table
  rw [hframed.table] at hmem
  exact h hmem

/-- A descriptor that the call does not own is closed. -/
theorem not_framed_closes (table : Finset ℕ) (fd : ℕ) : ¬ Framed table [.closes fd] := by
  intro hframed
  exact absurd hframed.own.1 (Finset.notMem_empty fd)

@[simp] theorem fdActions_leave (fd : ℕ) : fdActions (leave fd) = [.closes fd] := rfl

@[simp] theorem fdActions_socket (fd : ℕ) (as : List Action) :
    fdActions (.socket fd :: as) = .opens fd :: fdActions as := rfl

@[simp] theorem fdActions_insert (row : NewRow) (executed : Bool) (as : List Action) :
    fdActions (.insert row executed :: as) = fdActions as := rfl

end

/-- When a check returns, the table of open descriptors is as it was and no foreign
descriptor was closed, exactly if the check closes its socket and reaches its common end with
one. -/
theorem framed_iff (normalize : Text → UInt32) (ml : Bool) (c : Caches) (dbhost sql sqlPtr : Text)
    (r : Replies) (table : Finset ℕ) (hsocket : r.socket ∉ table) :
    ((sqlCheckSql normalize ml c dbhost sql r.toAnswers).2 ≠ .exited →
      Framed table (fdActions (checkActions normalize ml c dbhost sql sqlPtr r))) ↔
      ClosesItsSocket normalize ml c dbhost sql r := by
  have heffect : CheckEffect normalize ml c dbhost sql sqlPtr r _ _ _ := check_effect sqlPtr r
  cases heffect with
  | cutShort hcut _ actions =>
    rw [actions]
    exact iff_of_true (fun _ => framed_nil table) (.inl hcut)
  | matched hfree accepted re _ _ actions =>
    rw [actions]
    refine iff_of_true (fun _ => framed_nil table) (.inr ?_)
    rw [if_pos accepted]
    exact .inl re
  | learned hfree accepted re on reply _ _ _ _ actions =>
    rw [actions, fdActions_socket, fdActions_insert, fdActions_leave]
    refine iff_of_true (fun _ => framed_opens_closes hsocket) (.inr ?_)
    rw [if_pos accepted, reply]
    exact .inr ⟨on, by decide⟩
  | normal hfree accepted re reply _ outcome actions =>
    rw [outcome, actions]
    by_cases hml : ml
    · rw [if_pos hml, fdActions_socket, fdActions_leave]
      refine iff_of_true (fun _ => framed_opens_closes hsocket) (.inr ?_)
      rw [if_pos accepted, reply hml]
      exact .inr ⟨hml, by decide⟩
    · rw [if_neg hml, fdActions_leave]
      apply iff_of_false (fun h => not_framed_closes table 0 (h (by decide)))
      rw [ClosesItsSocket, if_pos accepted]
      tauto
  | garbage hfree accepted re on reply _ outcome actions =>
    rw [outcome, actions]
    apply iff_of_false (fun h => not_framed_opens hsocket (h (by decide)))
    rw [ClosesItsSocket, if_pos accepted]
    tauto
  | rejected hfree hrejected binds executes outcome _ _ _ actions =>
    rw [outcome, actions, fdActions_insert, fdActions_leave]
    apply iff_of_false (fun h => not_framed_closes table 0 (h (by decide)))
    rw [ClosesItsSocket, if_neg hrejected]
    tauto
  | exited hfree outcome _ cause =>
    refine iff_of_true (fun h => absurd outcome h) (.inr ?_)
    rcases cause with ⟨accepted, -, hml, hexits⟩ | ⟨hrejected, hrow⟩
    · rw [if_pos accepted, hexits]
      exact .inr ⟨hml, by decide⟩
    · rw [if_neg hrejected]
      exact hrow

section Examples

/-- With the machine-learning server on, its answer `0` leaves the descriptors as they are. -/
theorem framed_plain :
    (3 : ℕ) ∉ ({0, 1, 2} : Finset ℕ) ∧
      Framed {0, 1, 2} (fdActions (checkActions (fun _ => 7) true emptyCaches ['5'] ['a'] [] plain)) := by
  refine ⟨by decide, ?_⟩
  apply (framed_iff (fun _ => 7) true emptyCaches ['5'] ['a'] [] plain {0, 1, 2} (by decide)).mpr
  · exact .inr (.inr ⟨rfl, by decide⟩)
  · decide

/-- Without the machine-learning server, a normal statement closes descriptor 0. -/
theorem not_framed_off :
    ¬ ∀ (normalize : Text → UInt32) (ml : Bool) (c : Caches) (dbhost sql sqlPtr : Text) (r : Replies)
      (table : Finset ℕ), r.socket ∉ table →
      (sqlCheckSql normalize ml c dbhost sql r.toAnswers).2 ≠ .exited →
        Framed table (fdActions (checkActions normalize ml c dbhost sql sqlPtr r)) := by
  intro h
  have hframed := (h (fun _ => 7) false emptyCaches ['5'] ['a'] [] plain {0, 1, 2} (by decide)
    (by decide)).table
  exact absurd hframed (by decide)

end Examples

end CLib.Mysql
