import CLib.Base.Tail

namespace CLib.Fileio
open CLib.Base

def bufSize : ℕ := 1024

def maxWaitingCount : ℕ := 3

/-- The ways out of the loop. -/
inductive TailExit
  | waitLimit | openError | seekError
  deriving DecidableEq

/-- What the file holds in one round of the loop, and whether it can be opened again. -/
structure Turn where
  file : Text
  opens : Bool
  seeks : Bool

/-- The state of `main`: `t` counts bytes, `pos` is where the handle `a` stands, and
`b` holds the buffers handed to `fwrite`, one after the other. -/
structure Copier where
  t : ℕ
  pos : ℕ
  nsl : ℕ
  b : List Text
  exit : Option TailExit

namespace Copier

/-- Both files are open, and `a` is at its beginning. -/
def opened : Copier := ⟨0, 0, 0, [], none⟩

def leave (s : Copier) (e : TailExit) : Copier := { s with exit := some e }

/-- `c == 0`: wait, then open the file again and seek to `t`. -/
def reopen (s : Copier) (e : Turn) : Copier :=
  let s := { s with nsl := s.nsl + 1 }
  if maxWaitingCount < s.nsl then s.leave .waitLimit
  else if e.opens = false then s.leave .openError
  else if e.seeks = false then s.leave .seekError
  else { s with pos := s.t }

/-- One round of the loop. At end of file `c` is set to zero, whatever `fgets` took. -/
def turn (s : Copier) (e : Turn) : Copier :=
  if s.exit.isSome then s
  else
    let got := fgets (e.file.drop s.pos) bufSize
    let c := if got.2 then 0 else (cstr got.1).length
    let s := { s with pos := s.pos + got.1.length, t := s.t + c }
    if c = 0 then s.reopen e
    else { s with b := s.b ++ [got.1.take c] }

def turns (s : Copier) (es : List Turn) : Copier := es.foldl turn s

theorem turns_concat (s : Copier) (es : List Turn) (e : Turn) :
    s.turns (es ++ [e]) = (s.turns es).turn e := by
  simp [turns]

/-- The copier as a reader that follows the file. -/
def follower (s : Copier) : Follower := ⟨s.t, s.pos, s.b, s.exit.isNone⟩

/-- Every way through `reopen` keeps the count and the copy, and the one that goes on
puts the handle back at the count. -/
theorem reopen_follower (s : Copier) (e : Turn) :
    (s.reopen e).t = s.t ∧ (s.reopen e).b = s.b ∧
      ((s.reopen e).exit.isNone → (s.reopen e).pos = s.t) := by
  unfold reopen
  dsimp only
  split_ifs <;> exact ⟨rfl, rfl, by simp [leave]⟩

theorem turn_round (s : Copier) (e : Turn) :
    Follower.Round bufSize e.file s.follower (s.turn e).follower := by
  cases hexit : s.exit with
  | some x =>
    have hturn : s.turn e = s := by simp [turn, hexit]
    rw [hturn]
    exact .idles rfl (by simp [follower, hexit]) rfl
  | none =>
    cases hgot : fgets (e.file.drop s.pos) bufSize with
    | mk l eof =>
      by_cases hc : eof = true ∨ (cstr l).length = 0
      · -- End of file: `c` is zero, so nothing is counted and the file is opened again.
        have hzero : (if eof = true then 0 else (cstr l).length) = 0 := by
          cases hc with
          | inl h => rw [if_pos h]
          | inr h => rw [h, ite_self]
        have hturn : s.turn e = { s with pos := s.pos + l.length }.reopen e := by
          simp [turn, hexit, hgot, hzero]
        obtain ⟨ht, hb, hgo⟩ := reopen_follower { s with pos := s.pos + l.length } e
        rw [hturn]
        exact .idles ht hgo hb
      · obtain ⟨heof, hlen⟩ := not_or.mp hc
        obtain rfl : eof = false := by simpa using heof
        have hturn : s.turn e =
            ⟨s.t + (cstr l).length, s.pos + l.length, s.nsl, s.b ++ [cstr l], s.exit⟩ := by
          have htake : l.take (cstr l).length = cstr l :=
            (List.prefix_iff_eq_take.mp (cstr_isPrefix l)).symm
          simp [turn, hexit, hgot, hlen, htake]
        rw [hturn]
        exact .takes l (by simp [follower, hexit]) hgot rfl rfl rfl

theorem turns_intact {es : List Turn} {t : Text} (hgrow : Growing (es.map Turn.file ++ [t]))
    (hnul : nul ∉ t) : Follower.Intact bufSize t (opened.turns es).follower := by
  apply Follower.intact_of_rounds Turn.file (fun es => (opened.turns es).follower) (by decide) rfl
    ?_ hgrow hnul
  intro es e
  rw [turns_concat]
  exact turn_round _ e

end Copier
end CLib.Fileio
