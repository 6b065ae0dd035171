import CLib.Socket.Readline

namespace CLib.Socket
open CLib.Base

variable {κ : Type*}

/-- A process that reads lines from several descriptors: the static variables, the descriptors,
and the calls of `Readline` so far with their results. -/
structure Process (κ : Type*) where
  static : Static κ
  sources : κ → Source
  log : List (κ × ℕ × Line)

namespace Process

def start (sources : κ → Source) : Process κ := ⟨Static.start, sources, []⟩

section
variable [DecidableEq κ]

/-- A call `Readline(fd, ptr, maxlen)`. -/
def call (p : Process κ) (c : κ × ℕ) : Option (Process κ) :=
  let r := readline c.1 c.2 p.static (p.sources c.1)
  some ⟨r.2.1, Function.update p.sources c.1 r.2.2, p.log ++ [(c.1, c.2, r.1)]⟩

/-- The calls on one descriptor. -/
def maxlensOn (p : Process κ) (fd : κ) : List ℕ :=
  p.log.filterMap fun c => if c.1 = fd then some c.2.1 else none

/-- Their results. -/
def linesOn (p : Process κ) (fd : κ) : List Line :=
  p.log.filterMap fun c => if c.1 = fd then some c.2.2 else none

/-- The calls on each descriptor get what they would get if they were alone with it, and the
bytes they store are a beginning of its stream. -/
def Unmixed (sources : κ → Source) (p : Process κ) : Prop :=
  ∀ fd, p.linesOn fd = (readlines fd (p.maxlensOn fd) Static.start (sources fd)).1 ∧
    ((p.linesOn fd).map Line.stored).flatten <+: (sources fd).rest

end

/-- A call that takes bytes finds none in the buffer, or bytes of its own descriptor. -/
def OwnBytes (p : Process κ) (c : κ × ℕ) : Prop :=
  c.2 ≤ 1 ∨ p.static.unread = [] ∨ p.static.filledFrom = some c.1

instance [DecidableEq κ] (p : Process κ) : DecidablePred p.OwnBytes := fun c =>
  inferInstanceAs (Decidable (c.2 ≤ 1 ∨ p.static.unread = [] ∨ p.static.filledFrom = some c.1))

end Process

theorem readline_of_le_one (fd : κ) {maxlen : ℕ} (h : maxlen ≤ 1) (st : Static κ) (s : Source) :
    readline fd maxlen st s = (⟨1, [], true⟩, st, s) := by
  rw [readline, Nat.sub_eq_zero_of_le h]
  rfl

theorem lineLoop_pending (k n : ℕ) (stored unread : Text) (s : Source) :
    ∃ taken, (lineLoop k n stored unread s).1.stored = stored ++ taken ∧
      unread ++ s.rest = taken ++
        ((lineLoop k n stored unread s).2.1 ++ (lineLoop k n stored unread s).2.2.rest) := by
  induction k generalizing n stored unread s with
  | zero => exact ⟨[], (List.append_nil _).symm, rfl⟩
  | succ k ih =>
    have hfetch := fetchFrom_pending unread s
    rw [lineLoop]
    generalize fetchFrom unread s = r at hfetch ⊢
    obtain ⟨fetched, unread', s'⟩ := r
    cases fetched with
    | byte c =>
      by_cases hc : c = '\n'
      · simp only [if_pos hc]
        exact ⟨[c], rfl, hfetch⟩
      · simp only [if_neg hc]
        obtain ⟨taken, hstored, hpending⟩ := ih (n + 1) (stored ++ [c]) unread' s'
        refine ⟨c :: taken, by rw [hstored, List.append_assoc]; rfl, ?_⟩
        rw [hfetch]
        exact congrArg (c :: ·) hpending
    | eof => exact ⟨[], (List.append_nil _).symm, hfetch⟩
    | error => exact ⟨[], (List.append_nil _).symm, hfetch⟩

theorem linesFrom_pending (maxlens : List ℕ) (unread : Text) (s : Source) :
    unread ++ s.rest = ((linesFrom maxlens unread s).1.map Line.stored).flatten ++
      ((linesFrom maxlens unread s).2.1 ++ (linesFrom maxlens unread s).2.2.rest) := by
  induction maxlens generalizing unread s with
  | nil => rfl
  | cons maxlen maxlens ih =>
    obtain ⟨taken, hstored, hpending⟩ := lineLoop_pending (maxlen - 1) 1 [] unread s
    rw [hpending, linesFrom, List.map_cons, List.flatten_cons, hstored, List.append_assoc, ← ih]
    rfl

theorem linesFrom_concat (maxlens : List ℕ) (maxlen : ℕ) (unread : Text) (s : Source) :
    linesFrom (maxlens ++ [maxlen]) unread s =
      let r := linesFrom maxlens unread s
      let l := lineLoop (maxlen - 1) 1 [] r.2.1 r.2.2
      (r.1 ++ [l.1], l.2) := by
  induction maxlens generalizing unread s with
  | nil => rfl
  | cons m maxlens ih =>
    rw [List.cons_append, linesFrom, ih]
    rfl

section FilledFrom
variable {fd : κ} {st : Static κ}

/-- The buffer has been filled from the descriptor of the call, or it has only got shorter. -/
def KeepsOrFills (fd : κ) (st st' : Static κ) : Prop :=
  st'.filledFrom = some fd ∨ (st'.filledFrom = st.filledFrom ∧ st'.unread <:+ st.unread)

theorem KeepsOrFills.trans {st st' st'' : Static κ} (h : KeepsOrFills fd st st')
    (h' : KeepsOrFills fd st' st'') : KeepsOrFills fd st st'' := by
  rcases h' with hfills | ⟨hkeeps, hsuffix⟩
  · exact .inl hfills
  · exact h.imp hkeeps.trans fun h => ⟨hkeeps.trans h.1, hsuffix.trans h.2⟩

theorem myRead_keepsOrFills (fd : κ) (hok : st.Ok) (s : Source) :
    KeepsOrFills fd st (myRead fd st s).2.1 := by
  unfold myRead
  split_ifs with hcnt
  · split
    · exact .inr ⟨rfl, by simp [Static.unread]⟩
    · exact .inl rfl
    · exact .inr ⟨rfl, by simp [Static.unread]⟩
  · refine .inr ⟨rfl, ?_⟩
    rw [Static.unread_fetch hok (Int.not_le.mp hcnt)]
    exact List.suffix_cons _ _

theorem readlineLoop_keepsOrFills (fd : κ) (hok : st.Ok) (k n : ℕ) (stored : Text) (s : Source) :
    KeepsOrFills fd st (readlineLoop fd k n stored st s).2.1 := by
  induction k generalizing n stored st s with
  | zero => exact .inr ⟨rfl, List.suffix_rfl⟩
  | succ k ih =>
    have hok' := (myRead_refines fd hok s).1
    have hkeeps := myRead_keepsOrFills fd hok s
    rw [readlineLoop]
    generalize myRead fd st s = r at hok' hkeeps ⊢
    obtain ⟨fetched, st', s'⟩ := r
    cases fetched with
    | byte c =>
      by_cases hc : c = '\n'
      · simp only [if_pos hc]
        exact hkeeps
      · simp only [if_neg hc]
        exact hkeeps.trans (ih hok' (n + 1) (stored ++ [c]) s')
    | eof => exact hkeeps
    | error => exact hkeeps

end FilledFrom

namespace Process
variable [DecidableEq κ] {sources : κ → Source} {p : Process κ}

/-- The bytes of the descriptor that have been read ahead. -/
def ahead (p : Process κ) (fd : κ) : Text :=
  if p.static.filledFrom = some fd then p.static.unread else []

/-- For each descriptor the process is where the calls on it alone would have got. -/
structure Separate (sources : κ → Source) (p : Process κ) : Prop where
  ok : p.static.Ok
  alone : ∀ fd, linesFrom (p.maxlensOn fd) [] (sources fd) = (p.linesOn fd, p.ahead fd, p.sources fd)

theorem separate_start (sources : κ → Source) : Separate sources (start sources) where
  ok := by simp [start, Static.start, Static.Ok]
  alone := fun fd => by simp [start, maxlensOn, linesOn, ahead, linesFrom, Static.start]

theorem OwnBytes.ahead_eq {c : κ × ℕ} (h : p.OwnBytes c) (hlen : ¬ c.2 ≤ 1) :
    p.ahead c.1 = p.static.unread := by
  unfold ahead
  split_ifs with hfrom
  · rfl
  · exact ((h.resolve_left hlen).resolve_right hfrom).symm

theorem OwnBytes.ahead_eq_nil {c : κ × ℕ} (h : p.OwnBytes c) (hlen : ¬ c.2 ≤ 1) {fd : κ}
    (hfd : fd ≠ c.1) : p.ahead fd = [] := by
  unfold ahead
  split_ifs with hfrom
  · refine (h.resolve_left hlen).resolve_right fun hown => hfd ?_
    rw [hfrom] at hown
    exact Option.some.inj hown
  · rfl

/-- After a call that takes bytes the buffer holds bytes of its descriptor at most. -/
theorem ahead_after {c : κ × ℕ} (h : p.OwnBytes c) (hlen : ¬ c.2 ≤ 1) {q : Process κ}
    (hq : KeepsOrFills c.1 p.static q.static) :
    q.ahead c.1 = q.static.unread ∧ ∀ fd, fd ≠ c.1 → q.ahead fd = [] := by
  unfold ahead
  rcases hq with hfills | ⟨hkeeps, hsuffix⟩
  · refine ⟨if_pos hfills, fun fd hfd => if_neg fun hfrom => hfd ?_⟩
    rw [hfills] at hfrom
    exact (Option.some.inj hfrom).symm
  · rcases h.resolve_left hlen with hnil | hown
    · rw [hnil, List.suffix_nil] at hsuffix
      rw [hsuffix]
      exact ⟨ite_self _, fun fd _ => ite_self _⟩
    · rw [hkeeps, hown]
      exact ⟨if_pos rfl, fun fd hfd => if_neg fun hfrom => hfd (Option.some.inj hfrom).symm⟩

/-- What a call leaves: a new entry for its descriptor, and the others as they were. -/
theorem call_cases {fd : κ} {maxlen : ℕ} {q : Process κ} (hq : p.call (fd, maxlen) = some q) :
    (q.maxlensOn fd = p.maxlensOn fd ++ [maxlen] ∧
      q.linesOn fd = p.linesOn fd ++ [(readline fd maxlen p.static (p.sources fd)).1] ∧
      q.sources fd = (readline fd maxlen p.static (p.sources fd)).2.2) ∧
    q.static = (readline fd maxlen p.static (p.sources fd)).2.1 ∧
    ∀ fd', fd' ≠ fd → q.maxlensOn fd' = p.maxlensOn fd' ∧ q.linesOn fd' = p.linesOn fd' ∧
      q.sources fd' = p.sources fd' := by
  obtain rfl : _ = q := Option.some.inj hq
  refine ⟨⟨?_, ?_, Function.update_self ..⟩, rfl, fun fd' hfd => ⟨?_, ?_, Function.update_of_ne hfd ..⟩⟩
  · simp [maxlensOn]
  · simp [linesOn]
  · simp [maxlensOn, hfd.symm]
  · simp [linesOn, hfd.symm]

/-- The step lemma. -/
theorem Separate.call (h : Separate sources p) {c : κ × ℕ} (hG : p.OwnBytes c) {q : Process κ}
    (hq : p.call c = some q) : Separate sources q := by
  obtain ⟨fd, maxlen⟩ := c
  obtain ⟨⟨hmaxlens, hlines, hsource⟩, hstatic, hothers⟩ := call_cases hq
  by_cases hlen : maxlen ≤ 1
  · rw [readline_of_le_one fd hlen] at hlines hsource hstatic
    have hahead : ∀ fd', q.ahead fd' = p.ahead fd' := fun fd' => by rw [ahead, hstatic]; rfl
    refine ⟨hstatic ▸ h.ok, fun fd' => ?_⟩
    rw [hahead]
    by_cases hfd : fd' = fd
    · subst hfd
      rw [hmaxlens, hlines, hsource, linesFrom_concat, h.alone, Nat.sub_eq_zero_of_le hlen]
      rfl
    · obtain ⟨hm, hl, hs⟩ := hothers fd' hfd
      rw [hm, hl, hs, h.alone]
  · obtain ⟨hok, href⟩ := readlineLoop_refines fd h.ok (maxlen - 1) 1 [] (p.sources fd)
    have hkeeps := readlineLoop_keepsOrFills fd h.ok (maxlen - 1) 1 [] (p.sources fd)
    rw [← readline] at hok href hkeeps
    rw [← hstatic] at hok href hkeeps
    obtain ⟨hown, hother⟩ := ahead_after hG hlen hkeeps
    refine ⟨hok, fun fd' => ?_⟩
    by_cases hfd : fd' = fd
    · subst hfd
      rw [hmaxlens, hlines, hsource, linesFrom_concat, h.alone, hG.ahead_eq hlen, hown]
      simp only [← href]
    · obtain ⟨hm, hl, hs⟩ := hothers fd' hfd
      rw [hm, hl, hs, h.alone, hG.ahead_eq_nil hlen hfd, hother fd' hfd]

theorem Separate.unmixed (h : Separate sources p) : Unmixed sources p := by
  intro fd
  have halone := h.alone fd
  have hstart : (Static.start : Static κ).unread = [] := Static.unread_of_nonpos (Int.le_refl 0)
  have hrefines := (readlines_refines fd (separate_start sources).ok (p.maxlensOn fd)
    (sources fd)).2
  have hpending := linesFrom_pending (p.maxlensOn fd) [] (sources fd)
  rw [show (start sources).static = Static.start from rfl, hstart, halone] at hrefines
  rw [halone] at hpending
  exact ⟨(Prod.mk.inj hrefines).1.symm, ⟨_, hpending.symm⟩⟩

/-- As long as every call that takes bytes finds none in the buffer, or bytes of its own
descriptor, no descriptor gets anything of another one. -/
theorem unmixed_of_along {calls : List (κ × ℕ)}
    (h : Along Process.call OwnBytes (start sources) calls) :
    ∀ p, Visits Process.call (start sources) calls p → Unmixed sources p := fun p hp =>
  (h.invariant (separate_start sources) (fun _ _ _ hs hG hq => hs.call hG hq) p hp).unmixed

/-- Two clients, where the second one is served when the lines of the first have all been taken. -/
def twoClients : Bool → Source
  | false => ⟨"a\nb\n".toList, []⟩
  | true => ⟨"x\n".toList, []⟩

theorem unmixed_twoClients : ∃ p,
    runFrom Process.call (start twoClients) [(false, 9), (false, 9), (true, 9)] = some p ∧
      Unmixed twoClients p := by
  have hG : Along Process.call OwnBytes (start twoClients) [(false, 9), (false, 9), (true, 9)] := by
    decide +kernel
  exact ⟨_, rfl, unmixed_of_along hG _ ⟨_, List.prefix_rfl, rfl⟩⟩

/-- The second client gets the second line of the first one. -/
theorem mixed_twoClients : ∃ p, runFrom Process.call (start twoClients) [(false, 9), (true, 9)] = some p ∧
    ¬ Unmixed twoClients p :=
  ⟨_, rfl, fun h => absurd (h true).2 (by decide +kernel)⟩

end Process
end CLib.Socket
