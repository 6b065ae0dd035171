import CLib.Fileio.Fget
import CLib.Server.Tailing

namespace CLib.Server
open CLib.Base

namespace Reader
variable {r : Reader} {e : Attempt}

/-- The buffer that a round accepts: what `fgets` took before the end of the file,
counted by `bytes_read > 0`. -/
def accepted (r : Reader) (e : Attempt) : List Text :=
  let got := fgets (e.file.drop r.pos) bufferSizeBig
  if r.exit.isSome || decide (e.fgetsErrno ≠ 0) || got.2 then []
  else if (cstr got.1).length = 0 then []
  else [cstr got.1]

/-- The buffers accepted over the rounds `es`, in order. -/
def allAccepted (r : Reader) : List Attempt → List Text
  | [] => []
  | e :: es => r.accepted e ++ (r.attempt e).allAccepted es

theorem allAccepted_concat (r : Reader) (es : List Attempt) (e : Attempt) :
    r.allAccepted (es ++ [e]) = r.allAccepted es ++ (r.attempts es).accepted e := by
  induction es generalizing r with
  | nil => simp [allAccepted]
  | cons e' es ih =>
    rw [List.cons_append, allAccepted, allAccepted, ih, List.append_assoc]
    rfl

/-- The reader, with the buffers accepted so far, as one that follows the file. -/
def follower (r : Reader) (taken : List Text) : Follower := ⟨r.offset, r.pos, taken, r.exit.isNone⟩

theorem Idles.round {r' : Reader} (h : r.Idles r') (file : Text) (taken : List Text) :
    Follower.Round bufferSizeBig file (r.follower taken) (r'.follower taken) :=
  .idles h.offset (fun he => h.pos (Option.isNone_iff_eq_none.mp he)) rfl

theorem accept_nonempty {buf : Text} (h : buf.length ≠ 0) (r : Reader) (e : Attempt) :
    (r.accept e buf).offset = r.offset + buf.length ∧ (r.accept e buf).pos = r.pos := by
  unfold accept
  dsimp only
  rw [if_neg h]
  split_ifs <;> exact ⟨rfl, rfl⟩

theorem accept_empty {buf : Text} (h : buf.length = 0) (r : Reader) (e : Attempt) :
    r.Idles (r.accept e buf) := by
  unfold accept
  dsimp only
  rw [if_pos h]
  exact (reopen_idles _ e).congr (by rw [h]; rfl) rfl

/-- Whatever the operating system answers, a round takes one buffer at the handle, or
it accepts nothing and the handle is back at `offset`. -/
theorem attempt_round (r : Reader) (e : Attempt) (taken : List Text) :
    Follower.Round bufferSizeBig e.file (r.follower taken)
      ((r.attempt e).follower (taken ++ r.accepted e)) := by
  cases hexit : r.exit with
  | some x =>
    have hnone : r.accepted e = [] := by simp [accepted, hexit]
    have hattempt : r.attempt e = r := attempt_of_exit (by simp [hexit]) e
    rw [hnone, hattempt, List.append_nil]
    exact .idles rfl (by simp [follower, hexit]) rfl
  | none =>
    by_cases herr : e.fgetsErrno = 0
    · cases hgot : fgets (e.file.drop r.pos) bufferSizeBig with
      | mk l eof =>
        cases eof with
        | true =>
          -- Whatever `fgets` has taken of an unfinished line is dropped.
          have hnone : r.accepted e = [] := by simp [accepted, hgot]
          rw [hnone, List.append_nil]
          apply Idles.round
          rw [attempt_eof hexit herr (by rw [hgot])]
          dsimp only
          split_ifs
          · exact ⟨rfl, rfl, by simp [leave]⟩
          · exact ⟨rfl, rfl, by simp [leave]⟩
          · exact (reopen_idles _ e).congr rfl rfl
        | false =>
          have hattempt := attempt_chunk hexit herr hgot
          by_cases hlen : (cstr l).length = 0
          · have hnone : r.accepted e = [] := by simp [accepted, hgot, hlen]
            rw [hnone, List.append_nil]
            apply Idles.round
            rw [hattempt]
            exact (accept_empty hlen _ e).congr rfl rfl
          · have hsome : r.accepted e = [cstr l] := by
              simp [accepted, hexit, herr, hgot, hlen]
            obtain ⟨hoffset, hpos⟩ := accept_nonempty hlen (r.afterFgets l.length) e
            rw [hattempt, hsome]
            exact .takes l (by simp [follower, hexit]) hgot hoffset hpos rfl
    · -- A failed `fgets`, `EBADF` included.
      have hnone : r.accepted e = [] := by simp [accepted, herr]
      have hattempt : r.attempt e = r.lock.fgetsFailed e := by simp [attempt, hexit, herr]
      rw [hnone, hattempt, List.append_nil]
      exact ((r.lock.fgetsFailed_idles e).congr rfl rfl).round e.file taken

theorem attempts_intact {es : List Attempt} {t : Text}
    (hgrow : Growing (es.map Attempt.file ++ [t])) (hnul : nul ∉ t) :
    Follower.Intact bufferSizeBig t ((opened.attempts es).follower (opened.allAccepted es)) := by
  apply Follower.intact_of_rounds Attempt.file
    (fun es => (opened.attempts es).follower (opened.allAccepted es)) (by decide) rfl ?_ hgrow hnul
  intro es e
  rw [attempts_concat, allAccepted_concat]
  exact attempt_round _ e _

end Reader

/-- Both programs that follow a file by offset take its bytes in order, each once and
none of them skipped, over any schedule of growth, ends of file and reopenings. -/
theorem tail_intact (es : List Attempt) (t : Text) (hes : Growing (es.map Attempt.file ++ [t]))
    (ht : nul ∉ t) (ds : List Fileio.Turn) (u : Text)
    (hds : Growing (ds.map Fileio.Turn.file ++ [u])) (hu : nul ∉ u) :
    Follower.Intact bufferSizeBig t
        ⟨(Reader.opened.attempts es).offset, (Reader.opened.attempts es).pos,
          Reader.opened.allAccepted es, (Reader.opened.attempts es).exit.isNone⟩ ∧
      Follower.Intact Fileio.bufSize u
        ⟨(Fileio.Copier.opened.turns ds).t, (Fileio.Copier.opened.turns ds).pos,
          (Fileio.Copier.opened.turns ds).b, (Fileio.Copier.opened.turns ds).exit.isNone⟩ :=
  ⟨Reader.attempts_intact hes ht, Fileio.Copier.turns_intact hds hu⟩

/-- A last line that is first seen without its end, and what the two readers make of it. -/
theorem tail_intact_partial_line :
    Follower.Intact bufferSizeBig "a\nbc\n".toList
        ⟨5, 5, ["a\n".toList, "bc\n".toList], true⟩ ∧
      Follower.Intact Fileio.bufSize "a\nbc\n".toList
        ⟨5, 5, ["a\n".toList, "bc\n".toList], true⟩ := by
  have h := tail_intact
    [.quiet "a\nb".toList, .quiet "a\nb".toList, ⟨"a\nb".toList, ebadf, 0, true, true, false⟩,
      .quiet "a\nbc\n".toList] "a\nbc\n".toList (by decide +kernel) (by decide +kernel)
    [⟨"a\nb".toList, true, true⟩, ⟨"a\nb".toList, true, true⟩, ⟨"a\nbc\n".toList, true, true⟩]
    "a\nbc\n".toList (by decide +kernel) (by decide +kernel)
  have hserver : (Reader.opened.allAccepted
      [.quiet "a\nb".toList, .quiet "a\nb".toList, ⟨"a\nb".toList, ebadf, 0, true, true, false⟩,
        .quiet "a\nbc\n".toList]) = ["a\n".toList, "bc\n".toList] := by decide +kernel
  rw [hserver] at h
  exact h

end CLib.Server
