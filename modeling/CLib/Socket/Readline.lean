import CLib.Base.Lines
import CLib.Base.Runs
import CLib.Socket.Transfer
import Mathlib.Logic.Function.Basic

namespace CLib.Socket
open CLib.Base

def readBufSize : ℕ := 100

/-- The static variables of `my_read`, and the descriptor whose bytes are in the buffer. -/
structure Static (κ : Type*) where
  readCnt : ℤ
  readPtr : ℕ
  readBuf : Text
  filledFrom : Option κ
  deriving DecidableEq

/-- What `my_read` returns: 1 with a byte, 0, or -1. -/
inductive Fetched
  | byte (c : Char)
  | eof
  | error
  deriving DecidableEq

/-- What `Readline` returns, the bytes it has stored from `vptr` on, and whether it has stored a
NUL behind them. -/
structure Line where
  result : ℤ
  stored : Text
  terminated : Bool
  deriving DecidableEq

/-- `again:` the call of `read` is repeated as long as it is interrupted. -/
def readAgain (rest : Text) : List ReadAnswer → Returned × Source
  | .interrupted :: as => readAgain rest as
  | as => Source.read readBufSize ⟨rest, as⟩

variable {κ : Type*}

namespace Static

/-- As the program starts. -/
def start : Static κ := ⟨0, 0, List.replicate readBufSize nul, none⟩

/-- `read_cnt--; *ptr = *read_ptr++; return 1;` -/
def fetch (st : Static κ) : Fetched × Static κ :=
  (.byte (st.readBuf.getD st.readPtr nul), ⟨st.readCnt - 1, st.readPtr + 1, st.readBuf, st.filledFrom⟩)

/-- `read` has put the bytes into `read_buf`, and `read_ptr = read_buf`. -/
def filled (st : Static κ) (fd : κ) (bs : Text) : Static κ :=
  ⟨bs.length, 0, bs ++ st.readBuf.drop bs.length, some fd⟩

/-- The bytes that have been read ahead. -/
def unread (st : Static κ) : Text := (st.readBuf.drop st.readPtr).take st.readCnt.toNat

end Static

def myRead (fd : κ) (st : Static κ) (s : Source) : Fetched × Static κ × Source :=
  if st.readCnt ≤ 0 then
    match readAgain s.rest s.answers with
    | (.bytes [], s) => (.eof, ⟨0, st.readPtr, st.readBuf, st.filledFrom⟩, s)
    | (.bytes (c :: cs), s) =>
      let r := (st.filled fd (c :: cs)).fetch
      (r.1, r.2, s)
    | (_, s) => (.error, ⟨-1, st.readPtr, st.readBuf, st.filledFrom⟩, s)
  else
    let r := st.fetch
    (r.1, r.2, s)

/-- The loop of `Readline`, for `n` from here on `k` rounds at most. -/
def readlineLoop (fd : κ) : ℕ → ℕ → Text → Static κ → Source → Line × Static κ × Source
  | 0, n, stored, st, s => (⟨n, stored, true⟩, st, s)
  | k + 1, n, stored, st, s =>
    match myRead fd st s with
    | (.byte c, st, s) =>
      if c = '\n' then (⟨n, stored ++ [c], true⟩, st, s)
      else readlineLoop fd k (n + 1) (stored ++ [c]) st s
    | (.eof, st, s) => (⟨n - 1, stored, true⟩, st, s)
    | (.error, st, s) => (⟨-1, stored, false⟩, st, s)

def readline (fd : κ) (maxlen : ℕ) (st : Static κ) (s : Source) : Line × Static κ × Source :=
  readlineLoop fd (maxlen - 1) 1 [] st s

/-- The results of calls of `Readline` on one descriptor, one after the other, and the state
behind them. -/
def readlines (fd : κ) : List ℕ → Static κ → Source → List Line × Static κ × Source
  | [], st, s => ([], st, s)
  | maxlen :: maxlens, st, s =>
    let r := readline fd maxlen st s
    let rs := readlines fd maxlens r.2.1 r.2.2
    (r.1 :: rs.1, rs.2)

/-- `my_read` on the bytes that have been read ahead. -/
def fetchFrom (unread : Text) (s : Source) : Fetched × Text × Source :=
  match unread with
  | c :: cs => (.byte c, cs, s)
  | [] =>
    match readAgain s.rest s.answers with
    | (.bytes [], s) => (.eof, [], s)
    | (.bytes (c :: cs), s) => (.byte c, cs, s)
    | (_, s) => (.error, [], s)

/-- The loop of `Readline` on the bytes that have been read ahead. -/
def lineLoop : ℕ → ℕ → Text → Text → Source → Line × Text × Source
  | 0, n, stored, unread, s => (⟨n, stored, true⟩, unread, s)
  | k + 1, n, stored, unread, s =>
    match fetchFrom unread s with
    | (.byte c, unread, s) =>
      if c = '\n' then (⟨n, stored ++ [c], true⟩, unread, s)
      else lineLoop k (n + 1) (stored ++ [c]) unread s
    | (.eof, unread, s) => (⟨n - 1, stored, true⟩, unread, s)
    | (.error, unread, s) => (⟨-1, stored, false⟩, unread, s)

/-- Calls of `Readline` on the bytes that have been read ahead. -/
def linesFrom : List ℕ → Text → Source → List Line × Text × Source
  | [], unread, s => ([], unread, s)
  | maxlen :: maxlens, unread, s =>
    let r := lineLoop (maxlen - 1) 1 [] unread s
    let rs := linesFrom maxlens r.2.1 r.2.2
    (r.1 :: rs.1, rs.2)

namespace Static
variable {st : Static κ}

/-- The bytes read ahead are in the buffer. -/
def Ok (st : Static κ) : Prop := st.readPtr + st.readCnt.toNat ≤ st.readBuf.length

theorem unread_of_nonpos (h : st.readCnt ≤ 0) : st.unread = [] := by
  rw [unread, Int.toNat_of_nonpos h, List.take_zero]

theorem unread_fetch (hok : st.Ok) (hpos : 0 < st.readCnt) :
    st.unread = st.readBuf.getD st.readPtr nul :: st.fetch.2.unread := by
  unfold Ok at hok
  have hlt : st.readPtr < st.readBuf.length := by omega
  have hcnt : st.readCnt.toNat = (st.readCnt - 1).toNat + 1 := by omega
  have hget : st.readBuf.getD st.readPtr nul = st.readBuf[st.readPtr] := by simp [List.getD, hlt]
  rw [unread, List.drop_eq_getElem_cons hlt, hcnt, List.take_succ_cons, hget]
  rfl

theorem ok_fetch (hok : st.Ok) (hpos : 0 < st.readCnt) : st.fetch.2.Ok := by
  unfold Ok fetch at *
  simp only
  omega

theorem unread_filled (st : Static κ) (fd : κ) (bs : Text) : (st.filled fd bs).unread = bs := by
  simp [unread, filled]

theorem ok_filled (st : Static κ) (fd : κ) (bs : Text) : (st.filled fd bs).Ok := by
  simp [Ok, filled]

end Static

section Refinement
variable (fd : κ) {st : Static κ}

theorem myRead_refines (hok : st.Ok) (s : Source) :
    (myRead fd st s).2.1.Ok ∧
      ((myRead fd st s).1, (myRead fd st s).2.1.unread, (myRead fd st s).2.2) =
        fetchFrom st.unread s := by
  unfold myRead
  split_ifs with hcnt
  · rw [Static.unread_of_nonpos hcnt, fetchFrom]
    split
    · exact ⟨by simpa [Static.Ok] using Nat.le_of_add_right_le hok, by simp [Static.unread]⟩
    · next c cs s' h =>
      have hok' := st.ok_filled fd (c :: cs)
      have hpos : 0 < (st.filled fd (c :: cs)).readCnt := by simp [Static.filled]
      have hunread := Static.unread_fetch hok' hpos
      rw [Static.unread_filled] at hunread
      obtain ⟨hc, hcs⟩ := List.cons.inj hunread
      exact ⟨Static.ok_fetch hok' hpos, by simp only [← hcs]; rw [hc]; rfl⟩
    · exact ⟨by simpa [Static.Ok] using Nat.le_of_add_right_le hok, by simp [Static.unread]⟩
  · have hpos : 0 < st.readCnt := Int.not_le.mp hcnt
    rw [Static.unread_fetch hok hpos]
    exact ⟨Static.ok_fetch hok hpos, rfl⟩

theorem readlineLoop_refines (hok : st.Ok) (k n : ℕ) (stored : Text) (s : Source) :
    (readlineLoop fd k n stored st s).2.1.Ok ∧
      ((readlineLoop fd k n stored st s).1, (readlineLoop fd k n stored st s).2.1.unread,
        (readlineLoop fd k n stored st s).2.2) = lineLoop k n stored st.unread s := by
  induction k generalizing n stored st s with
  | zero => exact ⟨hok, rfl⟩
  | succ k ih =>
    obtain ⟨hok', href⟩ := myRead_refines fd hok s
    rw [readlineLoop, lineLoop, ← href]
    clear href
    generalize myRead fd st s = r at hok' ⊢
    obtain ⟨fetched, st', s'⟩ := r
    cases fetched with
    | byte c =>
      by_cases hc : c = '\n'
      · simp only [if_pos hc, and_true]
        exact hok'
      · simp only [if_neg hc]
        exact ih hok' (n + 1) (stored ++ [c]) s'
    | eof => exact ⟨hok', rfl⟩
    | error => exact ⟨hok', rfl⟩

theorem readlines_refines (hok : st.Ok) (maxlens : List ℕ) (s : Source) :
    (readlines fd maxlens st s).2.1.Ok ∧
      ((readlines fd maxlens st s).1, (readlines fd maxlens st s).2.1.unread,
        (readlines fd maxlens st s).2.2) = linesFrom maxlens st.unread s := by
  induction maxlens generalizing st s with
  | nil => exact ⟨hok, rfl⟩
  | cons maxlen maxlens ih =>
    obtain ⟨hok', href⟩ := readlineLoop_refines fd hok (maxlen - 1) 1 [] s
    rw [readlines, linesFrom, ← href, readline]
    obtain ⟨hok'', href'⟩ := ih hok' (readlineLoop fd (maxlen - 1) 1 [] st s).2.2
    exact ⟨hok'', by rw [← href']⟩

end Refinement

/-- The longest beginning of the stream that has no newline but as its last byte, and at most
`maxlen - 1` bytes. -/
structure LongestLine (maxlen : ℕ) (rest line : Text) : Prop where
  isPrefix : line <+: rest
  newline : '\n' ∉ line.dropLast
  length_lt : line.length < maxlen
  longest : ∀ p, p <+: rest → '\n' ∉ p.dropLast → p.length < maxlen → p.length ≤ line.length

/-- Each call stores the longest line and a NUL, returns its length, and the next call goes on
with the next byte. -/
def Exact : Text → List (ℕ × Line) → Prop
  | _, [] => True
  | rest, (maxlen, line) :: calls =>
    LongestLine maxlen rest line.stored ∧ line.terminated = true ∧
      line.result = line.stored.length ∧ Exact (rest.drop line.stored.length) calls

/-- The stream fills the destination without a newline. -/
def Fills (maxlen : ℕ) (rest : Text) : Prop :=
  maxlen - 1 ≤ rest.length ∧ '\n' ∉ rest.take (maxlen - 1)

/-- No call gets its destination filled. -/
def NoneFills : Text → List ℕ → Prop
  | _, [] => True
  | rest, maxlen :: maxlens =>
    ¬ Fills maxlen rest ∧ NoneFills (rest.drop (fgets rest maxlen).1.length) maxlens

theorem readAgain_cases (rest : Text) (as : List ReadAnswer) :
    (∃ used as', as = used ++ as' ∧ .failed ∈ used ∧
      readAgain rest as = (.failed, ⟨rest, as'⟩)) ∨
    ∃ used as' k, as = used ++ as' ∧ .failed ∉ used ∧ 0 < k ∧
      readAgain rest as = (.bytes (rest.take k), ⟨rest.drop k, as'⟩) := by
  induction as with
  | nil => exact .inr ⟨[], [], readBufSize, rfl, by simp, by decide, rfl⟩
  | cons a as ih =>
    cases a with
    | interrupted =>
      -- The call is repeated with the other answers.
      rcases ih with ⟨used, as', has, hfailed, h⟩ | ⟨used, as', k, has, hfailed, hk, h⟩
      · exact .inl ⟨.interrupted :: used, as', by rw [has]; rfl, by simp [hfailed], h⟩
      · exact .inr ⟨.interrupted :: used, as', k, by rw [has]; rfl, by simp [hfailed], hk, h⟩
    | failed => exact .inl ⟨[.failed], as, rfl, by simp, rfl⟩
    | upTo k =>
      have hpos : 0 < min readBufSize (max 1 k) := by unfold readBufSize; omega
      exact .inr ⟨[.upTo k], as, _, rfl, by simp, hpos, rfl⟩

section Stream
variable {unread : Text} {s : Source}

theorem fetchFrom_nil (hno : .failed ∉ s.answers) (h : unread ++ s.rest = []) :
    ∃ as, fetchFrom unread s = (.eof, [], ⟨[], as⟩) ∧ .failed ∉ as := by
  obtain ⟨rfl, hrest⟩ := List.append_eq_nil_iff.mp h
  rcases readAgain_cases s.rest s.answers with
    ⟨used, as', has, hfailed, -⟩ | ⟨used, as', k, has, -, -, h⟩
  · exact absurd (has ▸ List.mem_append_left as' hfailed) hno
  · rw [hrest, List.take_nil, List.drop_nil] at h
    exact ⟨as', by rw [fetchFrom, hrest, h], fun hm => hno (has ▸ List.mem_append_right used hm)⟩

theorem fetchFrom_cons (hno : .failed ∉ s.answers) {c : Char} {cs : Text}
    (h : unread ++ s.rest = c :: cs) :
    ∃ unread' s', fetchFrom unread s = (.byte c, unread', s') ∧ unread' ++ s'.rest = cs ∧
      .failed ∉ s'.answers := by
  cases unread with
  | cons d ds =>
    obtain ⟨rfl, hds⟩ := List.cons.inj h
    exact ⟨ds, s, rfl, hds, hno⟩
  | nil =>
    have hrest : s.rest = c :: cs := h
    rcases readAgain_cases s.rest s.answers with
      ⟨used, as', has, hfailed, -⟩ | ⟨used, as', k, has, -, hk, h⟩
    · exact absurd (has ▸ List.mem_append_left as' hfailed) hno
    · obtain ⟨k, rfl⟩ := Nat.exists_eq_add_one.mpr hk
      rw [hrest, List.take_succ_cons, List.drop_succ_cons] at h
      exact ⟨cs.take k, ⟨cs.drop k, as'⟩, by rw [fetchFrom, hrest, h], List.take_append_drop k cs,
        fun hm => hno (has ▸ List.mem_append_right used hm)⟩

theorem fetchFrom_pending (unread : Text) (s : Source) :
    unread ++ s.rest = (match (fetchFrom unread s).1 with | .byte c => [c] | _ => []) ++
      ((fetchFrom unread s).2.1 ++ (fetchFrom unread s).2.2.rest) := by
  cases unread with
  | cons d ds => rfl
  | nil =>
    rw [fetchFrom]
    rcases readAgain_cases s.rest s.answers with ⟨used, as', -, -, h⟩ | ⟨used, as', k, -, -, -, h⟩
    · simp [h]
    · have hsplit := List.take_append_drop k s.rest
      cases htake : s.rest.take k with
      | nil => simpa [h, htake] using hsplit.symm
      | cons c cs => simpa [h, htake] using hsplit.symm

theorem fgets_newline (cs : Text) (k : ℕ) : (fgets ('\n' :: cs) (k + 2)).1 = ['\n'] := by
  simp [fgets]

theorem fgets_cons {c : Char} (hc : c ≠ '\n') (cs : Text) (k : ℕ) :
    (fgets (c :: cs) (k + 2)).1 = c :: (fgets cs (k + 1)).1 := by
  simp [fgets, hc]

theorem fills_one (rest : Text) : Fills 1 rest := ⟨Nat.zero_le _, by simp⟩

theorem not_fills_nil (k : ℕ) : ¬ Fills (k + 2) [] := fun h => absurd h.1 (by simp)

theorem not_fills_newline (cs : Text) (k : ℕ) : ¬ Fills (k + 2) ('\n' :: cs) := fun h => h.2 (by simp)

theorem fills_cons_iff {c : Char} (hc : c ≠ '\n') (cs : Text) (k : ℕ) :
    Fills (k + 2) (c :: cs) ↔ Fills (k + 1) cs := by
  simp [Fills, hc.symm]

/-- Of the bytes of the stream the loop stores those that `fgets` takes, and it counts one too
many where they fill the destination. -/
theorem lineLoop_spec (k n : ℕ) (stored : Text) (hno : .failed ∉ s.answers) :
    let r := lineLoop k (n + 1) stored unread s
    let taken := (fgets (unread ++ s.rest) (k + 1)).1
    r.1.stored = stored ++ taken ∧ r.1.terminated = true ∧
      r.2.1 ++ r.2.2.rest = (unread ++ s.rest).drop taken.length ∧ .failed ∉ r.2.2.answers ∧
      (Fills (k + 1) (unread ++ s.rest) → r.1.result = n + taken.length + 1) ∧
      (¬ Fills (k + 1) (unread ++ s.rest) → r.1.result = n + taken.length) := by
  induction k generalizing n stored unread s with
  | zero =>
    have htaken : (fgets (unread ++ s.rest) 1).1 = [] := by
      cases unread ++ s.rest <;> simp [fgets]
    simp [lineLoop, htaken, hno, fills_one]
  | succ k ih =>
    cases hp : unread ++ s.rest with
    | nil =>
      obtain ⟨as, hfetch, has⟩ := fetchFrom_nil hno hp
      simp [lineLoop, hfetch, fgets, has, not_fills_nil]
    | cons c cs =>
      obtain ⟨unread', s', hfetch, hcs, hno'⟩ := fetchFrom_cons hno hp
      by_cases hc : c = '\n'
      · subst hc
        simp [lineLoop, hfetch, fgets_newline, hcs, hno', not_fills_newline]
      · obtain ⟨hstored, hterminated, hrest, hanswers, hfills, hnot⟩ :=
          @ih unread' s' (n + 1) (stored ++ [c]) hno'
        rw [hcs] at hstored hrest hfills hnot
        simp only [lineLoop, hfetch, if_neg hc, fgets_cons hc, fills_cons_iff hc,
          List.length_cons, List.drop_succ_cons]
        refine ⟨?_, hterminated, hrest, hanswers, fun h => ?_, fun h => ?_⟩
        · rw [hstored, List.append_assoc, List.singleton_append]
        · rw [hfills h]
          push_cast
          omega
        · rw [hnot h]
          push_cast
          omega

theorem newline_not_mem_dropLast_fgets (t : Text) (n : ℕ) : '\n' ∉ (fgets t n).1.dropLast := by
  induction t generalizing n with
  | nil => simp [fgets]
  | cons c cs ih =>
    rw [fgets]
    split_ifs with hn hc
    · simp
    · simp
    · cases hcs : (fgets cs (n - 1)).1 with
      | nil => simp
      | cons d ds =>
        have hds := ih (n - 1)
        rw [hcs] at hds
        rw [List.dropLast_cons_cons]
        exact List.not_mem_cons_of_ne_of_not_mem (Ne.symm hc) hds

theorem length_le_fgets {t p : Text} {n : ℕ} (hp : p <+: t) (hnewline : '\n' ∉ p.dropLast)
    (hlen : p.length < n) : p.length ≤ (fgets t n).1.length := by
  induction t generalizing p n with
  | nil => simp [List.prefix_nil.mp hp]
  | cons c cs ih =>
    cases p with
    | nil => exact Nat.zero_le _
    | cons d p =>
      obtain ⟨rfl, hps⟩ := List.cons_prefix_cons.mp hp
      rw [List.length_cons] at hlen
      rw [fgets, if_neg (by omega)]
      split_ifs with hc
      · cases p with
        | nil => exact Nat.le_refl 1
        | cons e p => simp [hc] at hnewline
      · have hdrop : '\n' ∉ p.dropLast := by
          cases p with
          | nil => simp
          | cons e p => exact fun hm => hnewline (List.mem_cons_of_mem d hm)
        exact Nat.succ_le_succ (ih hps hdrop (by omega))

/-- `fgets` takes the longest line, and there is only one. -/
theorem longestLine_iff {maxlen : ℕ} (hpos : 1 ≤ maxlen) {rest line : Text} :
    LongestLine maxlen rest line ↔ line = (fgets rest maxlen).1 := by
  have hlen := fgets_length_le rest maxlen
  constructor
  · intro h
    have hle := h.longest _ (fgets_isPrefix rest maxlen) (newline_not_mem_dropLast_fgets rest maxlen)
      (by omega)
    have hge := length_le_fgets h.isPrefix h.newline h.length_lt
    exact (List.prefix_of_prefix_length_le h.isPrefix (fgets_isPrefix rest maxlen) hge).eq_of_length_le hle
  · rintro rfl
    exact ⟨fgets_isPrefix rest maxlen, newline_not_mem_dropLast_fgets rest maxlen, by omega,
      fun p => length_le_fgets⟩

theorem exact_linesFrom_iff {maxlens : List ℕ} (hpos : ∀ m ∈ maxlens, 1 ≤ m)
    (hno : .failed ∉ s.answers) :
    Exact (unread ++ s.rest) (maxlens.zip (linesFrom maxlens unread s).1) ↔
      NoneFills (unread ++ s.rest) maxlens := by
  induction maxlens generalizing unread s with
  | nil => exact Iff.rfl
  | cons maxlen maxlens ih =>
    obtain ⟨hmaxlen, hmaxlens⟩ := List.forall_mem_cons.mp hpos
    obtain ⟨k, rfl⟩ := Nat.exists_eq_add_one.mpr hmaxlen
    have hspec := @lineLoop_spec unread s k 0 [] hno
    simp only [Nat.zero_add, Nat.cast_zero, Int.zero_add, List.nil_append] at hspec
    obtain ⟨hstored, hterminated, hrest, hanswers, hfills, hnot⟩ := hspec
    have hrec := @ih (lineLoop k 1 [] unread s).2.1 _ hmaxlens hanswers
    rw [hrest] at hrec
    simp only [linesFrom, Nat.add_sub_cancel, List.zip_cons_cons, Exact, NoneFills,
      longestLine_iff hmaxlen]
    rw [← hrec, hstored]
    by_cases h : Fills (k + 1) (unread ++ s.rest)
    · have hresult := hfills h
      refine iff_of_false (fun hexact => ?_) fun hnone => hnone.1 h
      have heq := hexact.2.2.1
      omega
    · have hresult := hnot h
      have heq : (lineLoop k 1 [] unread s).1.result = (fgets (unread ++ s.rest) (k + 1)).1.length := by
        omega
      simp [hterminated, heq, h]

end Stream

/-- Without read errors a sequence of calls is exact if and only if no call gets its destination
filled without a newline. -/
theorem readlines_exact_iff (fd : κ) {s : Source} (hs : .failed ∉ s.answers) {maxlens : List ℕ}
    (hpos : ∀ m ∈ maxlens, 1 ≤ m) :
    Exact s.rest (maxlens.zip (readlines fd maxlens Static.start s).1) ↔
      NoneFills s.rest maxlens := by
  have hok : (Static.start : Static κ).Ok := by simp [Static.Ok, Static.start]
  have hrefines := (readlines_refines fd hok maxlens s).2
  have hunread : (Static.start : Static κ).unread = [] := Static.unread_of_nonpos (Int.le_refl 0)
  rw [hunread] at hrefines
  have hlines := (Prod.mk.inj hrefines).1
  rw [hlines]
  exact @exact_linesFrom_iff [] s maxlens hpos hs

theorem readlines_exact_iff_two :
    (readlines () [9, 9] Static.start ⟨"ab\ncd".toList, [.interrupted, .upTo 1]⟩).1.map Line.stored =
        ["ab\n".toList, "cd".toList] ∧
      Exact "ab\ncd".toList ([9, 9].zip (readlines () [9, 9] Static.start
        ⟨"ab\ncd".toList, [.interrupted, .upTo 1]⟩).1) :=
  ⟨by decide, (readlines_exact_iff () (s := ⟨"ab\ncd".toList, [.interrupted, .upTo 1]⟩) (by decide)
    (by decide)).mpr ⟨by unfold Fills; decide, by unfold Fills; decide, trivial⟩⟩

/-- The destination has room for two bytes and a NUL: two bytes are stored, and 3 is returned. -/
theorem not_exact_full :
    ¬ Exact "abc".toList ([3].zip (readlines () [3] Static.start ⟨"abc".toList, []⟩).1) :=
  fun h => absurd h.2.2.1 (by decide)

end CLib.Socket
