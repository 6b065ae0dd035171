import CLib.Base.Relay
import CLib.PingPong.Exclusion

namespace CLib.PingPong
open CLib.Base Function

def Label.received : Label → Text
  | .recv bytes => bytes
  | _ => []

def Label.arrives : Label → Bool
  | .connect => true
  | _ => false

/-- The copy of a line that is put into the queue. -/
def copy (line : Text) : Text := cstr (line.take (bufferSize - 1))

/-- The two threads and one client, with all that has been received from it. -/
structure Session where
  threads : State
  received : Text
  arrived : Bool

namespace Session

def start (files : File → Text) : Session := ⟨initial files, [], false⟩

def step (s : Session) (l : Label) : Option Session :=
  if s.arrived && l.arrives then none
  else (PingPong.step s.threads l).map fun t => ⟨t, s.received ++ l.received, l.arrives || s.arrived⟩

/-- The files are switched only after the reader has finished the other one. -/
def Waits (s : Session) : Label → Prop
  | .switch => s.threads.enqueueDone s.threads.flagPing.other →
      s.threads.reader.taken ≠ some s.threads.flagPing.other ∧
        s.threads.writingDone s.threads.flagPing.other = false
  | _ => True

/-- A file begins with the beginning of a line, and the reader does not come to the end of a file on
the disk, or to a line that is not there to its end, while more of it is in the buffer. -/
def Seamless (s : Session) : Label → Prop
  | .recv _ => ∀ f ∈ s.threads.writer.fp, s.threads.content f = [] → LineEnd s.received
  | .getline =>
    match s.threads.reader with
    | .reading f n =>
      s.threads.writer.fp = some f → s.threads.buffer ≠ [] → '\n' ∈ (s.threads.disk f).drop n
    | _ => True
  | _ => True

instance (s : Session) : DecidablePred s.Waits
  | .switch => inferInstanceAs (Decidable (_ → _))
  | .connect | .retry | .recv _ | .recvAgain | .exit | .flush _ | .fclose | .poll | .getline
  | .finish => .isTrue trivial

instance (s : Session) : DecidablePred s.Seamless
  | .recv _ => inferInstanceAs (Decidable (∀ f ∈ _, _ → _))
  | .getline =>
    match hr : s.threads.reader with
    | .reading _ _ => decidable_of_iff (_ → _ → _ ∈ _) (by rw [Seamless, hr])
    | .polling | .closed _ => .isTrue (by rw [Seamless, hr]; trivial)
  | .connect | .retry | .switch | .recvAgain | .exit | .flush _ | .fclose | .poll
  | .finish => .isTrue trivial

/-- Every line fits the copy. -/
def Short (s : Session) : Prop := ∀ l ∈ getlines s.received, l.length < bufferSize ∧ nul ∉ l

/-- The client has gone, and no file is left to be read. -/
structure Finished (s : Session) : Prop where
  writer : s.threads.writer = .absent
  reader : s.threads.reader = .polling
  writingDone : ∀ f, s.threads.writingDone f = false

/-- The lines of what has been received, as far as they have come. -/
def Intact (s : Session) : Prop :=
  s.threads.sqlQueue <+: getlines s.received ∧
    (s.Finished → s.threads.sqlQueue = getlines s.received)

end Session

section Copy
variable {l t : Text}

theorem copy_eq_self_iff : copy l = l ↔ l.length < bufferSize ∧ nul ∉ l := by
  have hsize : 0 < bufferSize := by decide
  constructor
  · intro h
    have hlen := (cstr_isPrefix (l.take (bufferSize - 1))).length_le
    rw [List.length_take] at hlen
    rw [← h]
    refine ⟨?_, nul_not_mem_cstr _⟩
    rw [copy]
    omega
  · rintro ⟨hlen, hnul⟩
    rw [copy, List.take_of_length_le (by omega), cstr_of_not_mem hnul]

theorem map_copy_eq_self_iff {ls : List Text} : ls.map copy = ls ↔ ∀ l ∈ ls, copy l = l := by
  conv_lhs => rhs; rw [← List.map_id ls]
  exact List.map_inj_left

theorem firstLine_of_mem (h : '\n' ∈ t) :
    IsLine (State.firstLine t) ∧ ∃ r, t = State.firstLine t ++ r := by
  obtain ⟨w, r, rfl, hw⟩ := List.eq_append_cons_of_mem h
  have htake : (w ++ '\n' :: r).takeWhile (· != '\n') = w := by
    rw [List.takeWhile_append_of_pos, List.takeWhile_cons_of_neg (by simp), List.append_nil]
    exact fun c hc => by simpa using fun he : c = '\n' => hw (he ▸ hc)
  have hline : State.firstLine (w ++ '\n' :: r) = w ++ ['\n'] := by
    rw [State.firstLine, htake, List.take_length_add_append]
    rfl
  rw [hline]
  exact ⟨⟨w, hw, rfl⟩, r, by simp⟩

theorem firstLine_of_not_mem (h : '\n' ∉ t) : State.firstLine t = t := by
  have hall : t.takeWhile (· != '\n') = t := by
    rw [List.takeWhile_eq_self_iff]
    exact fun c hc => by simpa using fun he : c = '\n' => h (he ▸ hc)
  rw [State.firstLine, hall]
  exact List.take_of_length_le (Nat.le_succ _)

end Copy

namespace State
variable (s : State)

/-- The file is being written or waits for the reader. -/
def Untaken (f : File) : Prop :=
  s.writingDone f ∨ s.writer = .writing f true ∨ s.writer = .writing f false

instance : DecidablePred s.Untaken := fun f =>
  inferInstanceAs (Decidable (s.writingDone f ∨ s.writer = .writing f true ∨
    s.writer = .writing f false))

/-- What the reader will still take from the file. -/
def pending (f : File) : Text :=
  if s.Untaken f then s.content f
  else match s.reader with
    | .reading g n => if g = f then (s.content f).drop n else []
    | _ => []

variable {s} {f : File}

theorem pending_of_untaken (h : s.Untaken f) : s.pending f = s.content f := if_pos h

theorem pending_of_reading {n : ℕ} (h : ¬ s.Untaken f) (hr : s.reader = .reading f n) :
    s.pending f = (s.content f).drop n := by
  rw [pending, if_neg h, hr]
  exact if_pos rfl

theorem pending_of_reader_ne (h : ¬ s.Untaken f) (hr : s.reader.fp ≠ some f) :
    s.pending f = [] := by
  rw [pending, if_neg h]
  split
  · next g n hg =>
    rw [hg] at hr
    exact if_neg fun he => hr (congrArg some he)
  · rfl

end State

/-- Which file each thread may have in hand, with one client. -/
structure Turns (s : Session) : Prop where
  taken : ∀ f, s.threads.reader.taken = some f →
    f = s.threads.flagPing.other ∧ s.threads.writingDone f = false
  offset : ∀ f n, s.threads.reader = .reading f n → n ≤ (s.threads.disk f).length
  writing : ∀ f r, s.threads.writer = .writing f r →
    f = s.threads.flagPing ∧ s.threads.writingDone f = false
  absent : s.arrived = false → s.threads.writer = .absent
  fresh : s.arrived = false ∨ s.threads.writer = .connected →
    s.received = [] ∧ s.threads.writingDone s.threads.flagPing = false

/-- `read` has been taken from the files, and put into the queue line by line; the rest of what
has been received is in the two files, the older part in the other one. -/
structure Intake (s : Session) (read : Text) : Prop extends Turns s where
  relay : Relay s.received read (s.threads.pending s.threads.flagPing.other)
    (s.threads.pending s.threads.flagPing)
  queue : s.threads.sqlQueue = (getlines read).map copy

section Steps
variable {s : Session} {read : Text} {u : State} {fp : File} {r : Bool}

theorem pending_congr {t u : State} {f : File} (hu : u.Untaken f ↔ t.Untaken f)
    (hc : u.content f = t.content f) (hr : u.reader = t.reader) : u.pending f = t.pending f := by
  rw [State.pending, State.pending, hc, hr]
  exact if_congr hu rfl rfl

theorem Intake.stay (h : Intake s read) {t : Session} (ht : Turns t) (hr : t.received = s.received)
    (hflag : t.threads.flagPing = s.threads.flagPing)
    (hpending : ∀ f, t.threads.pending f = s.threads.pending f)
    (hqueue : t.threads.sqlQueue = s.threads.sqlQueue) : Intake t read where
  toTurns := ht
  relay := by
    rw [hr, hflag, hpending, hpending]
    exact h.relay
  queue := hqueue.trans h.queue

theorem Turns.not_untaken_other (h : Turns s)
    (hdone : s.threads.writingDone s.threads.flagPing.other = false) :
    ¬ s.threads.Untaken s.threads.flagPing.other := by
  rintro (hwait | hw | hw)
  · rw [hdone] at hwait
    cases hwait
  · exact s.threads.flagPing.other_ne (h.writing _ _ hw).1
  · exact s.threads.flagPing.other_ne (h.writing _ _ hw).1

theorem Turns.arrived_ne_false (h : Turns s) (hw : s.threads.writer ≠ .absent) :
    s.arrived ≠ false :=
  fun hf => hw (h.absent hf)

theorem Intake.connect (h : Intake s read) (hw : s.threads.writer = .absent)
    (harrived : s.arrived = false) :
    Intake ⟨{ s.threads with writer := .connected, socketIsActive := true }, s.received, true⟩
      read := by
  refine h.stay ⟨h.taken, h.offset, nofun, nofun, fun _ => h.fresh (.inl harrived)⟩ rfl rfl
    (fun f => pending_congr ?_ ?_ rfl) rfl
  · simp [State.Untaken, hw]
  · simp [State.content, hw, Writer.fp]

theorem Intake.retry (h : Intake s read) (hw : s.threads.writer = .connected) :
    Intake ⟨s.threads.retry, s.received, s.arrived⟩ read := by
  unfold State.retry
  split_ifs with hdone
  case neg => exact ⟨h.toTurns, h.relay, h.queue⟩
  obtain ⟨hreceived, hwait⟩ := h.fresh (.inr hw)
  have harrived := h.arrived_ne_false (by simp [hw])
  have hnil : s.threads.pending s.threads.flagPing = [] := by
    have heq := h.relay.eq
    rw [hreceived] at heq
    exact (List.append_eq_nil_iff.mp (List.append_eq_nil_iff.mp heq.symm).2).2
  refine h.stay ⟨h.taken, ?_, ?_, fun hf => absurd hf harrived, ?_⟩ rfl rfl (fun f => ?_) rfl
  · intro f n hr
    have hne : f ≠ s.threads.flagPing := by
      rw [(h.taken f (by rw [show s.threads.reader = _ from hr]; rfl)).1]
      exact s.threads.flagPing.other_ne
    show n ≤ (update s.threads.disk s.threads.flagPing [] f).length
    rw [update_of_ne hne]
    exact h.offset f n hr
  · rintro f r ⟨⟩
    exact ⟨rfl, hwait⟩
  · rintro (hf | hf)
    · exact absurd hf harrived
    · cases hf
  · by_cases hf : f = s.threads.flagPing
    · rw [hf, hnil, State.pending_of_untaken (.inr (.inr rfl))]
      simp [State.content, State.fopenW]
    · refine pending_congr ?_ ?_ rfl
      · simp [State.Untaken, State.fopenW, hw, Ne.symm hf]
      · simp [State.content, State.fopenW, Writer.fp, hw, hf, Ne.symm hf]

theorem Turns.stay (h : Turns s) (hw : s.threads.writer = .writing fp r) (r' : Bool) (count : ℕ)
    (buffer received : Text) :
    Turns ⟨{ s.threads with writer := .writing fp r', writingCount := count, buffer := buffer },
      received, s.arrived⟩ where
  taken := h.taken
  offset := h.offset
  writing := by
    rintro f r ⟨⟩
    exact h.writing fp _ hw
  absent hf := absurd hf (h.arrived_ne_false (by simp [hw]))
  fresh := by
    rintro (hf | hf)
    · exact absurd hf (h.arrived_ne_false (by simp [hw]))
    · cases hf

theorem untaken_writing_iff {t : State} {f : File} (hw : t.writer = .writing fp r) :
    t.Untaken f ↔ t.writingDone f ∨ f = fp := by
  rw [eq_comm (a := f)]
  cases r <;> simp [State.Untaken, hw]

theorem Intake.recvAgain (h : Intake s read) (hw : s.threads.writer = .writing fp r) (r' : Bool)
    (count : ℕ) :
    Intake ⟨{ s.threads with writer := .writing fp r', writingCount := count }, s.received,
      s.arrived⟩ read := by
  refine h.stay (h.toTurns.stay hw r' count s.threads.buffer s.received) rfl rfl (fun f => ?_) rfl
  refine pending_congr ?_ ?_ rfl
  · rw [untaken_writing_iff hw, untaken_writing_iff rfl]
  · simp [State.content, hw, Writer.fp]

theorem Intake.recv (h : Intake s read) (hw : s.threads.writer = .writing fp r) (bytes : Text)
    (hstart : s.threads.content fp = [] → LineEnd s.received) (r' : Bool) (count : ℕ) :
    Intake ⟨{ s.threads with
        writer := .writing fp r'
        writingCount := count
        buffer := s.threads.buffer ++ bytes }, s.received ++ bytes, s.arrived⟩ read := by
  obtain ⟨rfl, -⟩ := h.writing fp r hw
  refine ⟨h.toTurns.stay hw r' count _ _, ?_, h.queue⟩
  have hself : s.threads.pending s.threads.flagPing = s.threads.content s.threads.flagPing :=
    State.pending_of_untaken ((untaken_writing_iff hw).mpr (.inr rfl))
  have hrelay := h.relay.receive bytes fun hnil => hstart (hself ▸ hnil)
  convert hrelay using 1
  · refine pending_congr ?_ ?_ rfl
    · rw [untaken_writing_iff hw, untaken_writing_iff rfl]
    · simp [State.content, hw, Writer.fp]
  · rw [hself, State.pending_of_untaken]
    · simp [State.content, hw, Writer.fp]
    · exact (untaken_writing_iff rfl).mpr (.inr rfl)

theorem Intake.switch (h : Intake s read) (hw : s.threads.writer = .writing fp false)
    (hwaits : s.Waits .switch) : Intake ⟨s.threads.switch fp, s.received, s.arrived⟩ read := by
  unfold State.switch
  split_ifs with hdone
  case neg => exact h.recvAgain hw true 0
  obtain ⟨rfl, -⟩ := h.writing fp false hw
  obtain ⟨hfree, hother⟩ := hwaits hdone
  have htaken : s.threads.reader.taken = none := by
    cases htaken : s.threads.reader.taken with
    | none => rfl
    | some f => exact absurd ((h.taken f htaken).1 ▸ htaken) hfree
  have hfp : s.threads.reader.fp = none := by
    cases hr : s.threads.reader with
    | reading f n =>
      rw [hr] at htaken
      cases htaken
    | _ => rfl
  refine ⟨⟨?_, ?_, ?_, ?_, ?_⟩, ?_, h.queue⟩
  · intro f (hf : s.threads.reader.taken = some f)
    rw [htaken] at hf
    cases hf
  · intro f n (hr : s.threads.reader = .reading f n)
    rw [hr] at hfp
    cases hfp
  · rintro f r ⟨⟩
    exact ⟨rfl, (update_of_ne s.threads.flagPing.other_ne _ _).trans hother⟩
  · exact fun hf => absurd hf (h.arrived_ne_false (by simp [hw]))
  · rintro (hf | hf)
    · exact absurd hf (h.arrived_ne_false (by simp [hw]))
    · cases hf
  · have hnil : s.threads.pending s.threads.flagPing.other = [] :=
      State.pending_of_reader_ne (h.not_untaken_other hother) (by rw [hfp]; exact nofun)
    have hself : s.threads.pending s.threads.flagPing = s.threads.content s.threads.flagPing :=
      State.pending_of_untaken ((untaken_writing_iff hw).mpr (.inr rfl))
    have hrelay := h.relay
    rw [hnil, hself] at hrelay
    convert hrelay.rotate using 1
    · rw [State.pending_of_untaken (.inl (by simp))]
      simp [State.content, State.fopenW, State.fclose, State.flush, Writer.fp, hw]
    · rw [State.pending_of_untaken (.inr (.inl rfl))]
      simp [State.content, State.fopenW]

/-- The file of a client that has gone waits, even if part of it is still in the buffer. -/
theorem Intake.exit (h : Intake s read) (hw : s.threads.writer = .writing fp r) :
    Intake ⟨s.threads.exit fp, s.received, s.arrived⟩ read := by
  obtain ⟨rfl, hwait⟩ := h.writing fp r hw
  refine h.stay ⟨?_, h.offset, nofun, ?_, ?_⟩ rfl rfl (fun f => pending_congr ?_ ?_ rfl) rfl
  · intro f hf
    obtain ⟨rfl, hdone⟩ := h.taken f hf
    exact ⟨rfl, (update_of_ne s.threads.flagPing.other_ne _ _).trans hdone⟩
  · exact fun hf => absurd hf (h.arrived_ne_false (by simp [hw]))
  · rintro (hf | hf)
    · exact absurd hf (h.arrived_ne_false (by simp [hw]))
    · cases hf
  · rw [untaken_writing_iff hw]
    by_cases hf : f = s.threads.flagPing
    · simp [State.Untaken, State.exit, hf]
    · simp [State.Untaken, State.exit, hf]
  · simp [State.content, State.exit, hw, Writer.fp]

theorem Intake.flush (h : Intake s read) (hw : s.threads.writer.fp = some fp) (n : ℕ) :
    Intake ⟨s.threads.flush fp n, s.received, s.arrived⟩ read := by
  refine h.stay ⟨h.taken, fun f m hr => ?_, h.writing, h.absent, h.fresh⟩ rfl rfl
    (fun f => pending_congr Iff.rfl (content_flush hw n) rfl) rfl
  apply (h.offset f m hr).trans
  show (s.threads.disk f).length ≤ (update s.threads.disk fp _ f).length
  by_cases hf : f = fp
  · rw [hf, update_self, List.length_append]
    omega
  · rw [update_of_ne hf]

theorem Intake.fclose (h : Intake s read) (hw : s.threads.writer = .exiting fp) :
    Intake ⟨{ s.threads.fclose fp with writer := .absent }, s.received, s.arrived⟩ read := by
  have hfp : s.threads.writer.fp = some fp := by rw [hw]; rfl
  have hflush := h.flush hfp s.threads.buffer.length
  refine hflush.stay ⟨hflush.taken, hflush.offset, nofun, fun _ => rfl, fun hf => ?_⟩ rfl rfl
    (fun f => pending_congr ?_ ?_ rfl) rfl
  · rcases hf with hf | hf
    · exact h.fresh (.inl hf)
    · cases hf
  · simp [State.Untaken, State.fclose, State.flush, hw]
  · -- Nothing is left in the buffer.
    simp [State.content, State.fclose, State.flush]

theorem pending_of_polling {t : State} {f : File} (hr : t.reader = .polling) (hf : ¬ t.Untaken f) :
    t.pending f = [] :=
  State.pending_of_reader_ne hf (by rw [hr]; exact nofun)

theorem Intake.poll (h : Intake s read) (hr : s.threads.reader = .polling) :
    Intake ⟨s.threads.poll, s.received, s.arrived⟩ read := by
  have hne := s.threads.flagPing.other_ne
  unfold State.poll
  split_ifs with hother hcurrent
  · have hturns : Turns ⟨{ s.threads with
        writingDone := update s.threads.writingDone s.threads.flagPing.other false
        reader := .reading s.threads.flagPing.other 0 }, s.received, s.arrived⟩ := by
      refine ⟨?_, ?_, ?_, h.absent, fun hf => ⟨(h.fresh hf).1, ?_⟩⟩
      · rintro f ⟨⟩
        exact ⟨rfl, update_self ..⟩
      · rintro f n ⟨⟩
        exact Nat.zero_le _
      · intro f r hf
        obtain ⟨rfl, hwait⟩ := h.writing f r hf
        exact ⟨rfl, (update_of_ne hne.symm _ _).trans hwait⟩
      · exact (update_of_ne hne.symm _ _).trans (h.fresh hf).2
    refine h.stay hturns rfl rfl (fun f => ?_) rfl
    by_cases hf : f = s.threads.flagPing.other
    · rw [hf, State.pending_of_untaken (.inl hother), State.pending_of_reading ?_ rfl]
      · rfl
      · exact hturns.not_untaken_other (update_self ..)
    · have hfp : (some s.threads.flagPing.other) ≠ some f := fun he => hf (Option.some.inj he).symm
      have hiff : State.Untaken { s.threads with
          writingDone := update s.threads.writingDone s.threads.flagPing.other false
          reader := .reading s.threads.flagPing.other 0 } f ↔ s.threads.Untaken f := by
        simp [State.Untaken, hf]
      by_cases huntaken : s.threads.Untaken f
      · rw [State.pending_of_untaken huntaken, State.pending_of_untaken (hiff.mpr huntaken)]
        rfl
      · rw [pending_of_polling hr huntaken, State.pending_of_reader_ne (mt hiff.mp huntaken) hfp]
  · -- The file of the client that has gone.
    obtain ⟨-, hwait⟩ := Bool.and_eq_true_iff.mp hcurrent
    have hwriting : ∀ f r, s.threads.writer ≠ .writing f r := by
      intro f r hw
      obtain ⟨rfl, hdone⟩ := h.writing f r hw
      rw [hwait] at hdone
      cases hdone
    have hother : s.threads.writingDone s.threads.flagPing.other = false := by simpa using hother
    refine ⟨⟨?_, ?_, fun f r hf => absurd hf (hwriting f r), h.absent, fun hf => ?_⟩, ?_, h.queue⟩
    · rintro f ⟨⟩
      exact ⟨(File.other_other _).symm, update_self ..⟩
    · rintro f n ⟨⟩
      exact Nat.zero_le _
    · have hfresh := (h.fresh hf).2
      rw [hwait] at hfresh
      cases hfresh
    · have hrelay := h.relay
      rw [pending_of_polling hr (h.not_untaken_other hother),
        State.pending_of_untaken (.inl hwait)] at hrelay
      convert hrelay.rotate using 1
      · show State.pending _ s.threads.flagPing.other.other = _
        rw [File.other_other, State.pending_of_reading ?_ rfl]
        · rfl
        · simp [State.Untaken, hwriting]
      · exact State.pending_of_reader_ne (by simp [State.Untaken, hwriting, hother])
          fun he => hne (Option.some.inj he).symm
  · exact ⟨h.toTurns, h.relay, h.queue⟩

theorem Intake.finish (h : Intake s read) (hr : s.threads.reader = .closed fp) :
    Intake ⟨s.threads.finish, s.received, s.arrived⟩ read := by
  refine h.stay ⟨nofun, nofun, h.writing, h.absent, h.fresh⟩ rfl rfl (fun f => ?_) rfl
  by_cases hf : s.threads.Untaken f
  · exact (State.pending_of_untaken (s := s.threads.finish) hf).trans
      (State.pending_of_untaken hf).symm
  · rw [pending_of_polling (t := s.threads.finish) rfl hf,
      State.pending_of_reader_ne hf (by rw [hr]; exact nofun)]

/-- What is still to be taken from the file at hand, on the disk and in the buffer. -/
theorem pending_of_offset {t : State} {f : File} {n : ℕ} (hf : ¬ t.Untaken f)
    (hr : t.reader = .reading f n) (hn : n ≤ (t.disk f).length) :
    t.pending f = (t.disk f).drop n ++ if t.writer.fp = some f then t.buffer else [] := by
  rw [State.pending_of_reading hf hr, State.content, List.drop_append_of_le_length hn]

theorem Intake.take (h : Intake s read) {n : ℕ} {l rest : Text}
    (hr : s.threads.reader = .reading s.threads.flagPing.other n)
    (hline : (s.threads.disk s.threads.flagPing.other).drop n = l ++ rest) (hl : getlines l = [l])
    (hrelay : Relay s.received (read ++ l)
      (rest ++ if s.threads.writer.fp = some s.threads.flagPing.other then s.threads.buffer else [])
      (s.threads.pending s.threads.flagPing)) (hread : LineEnd read) {seen : File → ℕ}
    (hu : u = { s.threads with
      reader := .reading s.threads.flagPing.other (n + l.length)
      sqlQueue := s.threads.sqlQueue ++ [copy l]
      seen := seen }) : Intake ⟨u, s.received, s.arrived⟩ (read ++ l) := by
  have htaken := h.taken _ (show s.threads.reader.taken = _ by rw [hr]; rfl)
  have hur : u.reader = .reading s.threads.flagPing.other (n + l.length) := by rw [hu]
  have hfree : ¬ u.Untaken s.threads.flagPing.other := by
    rw [hu]
    exact h.not_untaken_other htaken.2
  have hlen : n + l.length ≤ (u.disk s.threads.flagPing.other).length := by
    have hn := h.offset _ n hr
    have hlen := congrArg List.length hline
    rw [List.length_drop, List.length_append] at hlen
    rw [hu]
    show n + l.length ≤ (s.threads.disk s.threads.flagPing.other).length
    omega
  have hother : u.pending s.threads.flagPing.other =
      rest ++ if s.threads.writer.fp = some s.threads.flagPing.other then s.threads.buffer else [] := by
    rw [pending_of_offset hfree hur hlen, hu]
    show (s.threads.disk s.threads.flagPing.other).drop (n + l.length) ++ _ = _
    rw [← List.drop_drop, hline, List.drop_left]
  have hcurrent : u.pending s.threads.flagPing = s.threads.pending s.threads.flagPing := by
    have hne : some s.threads.flagPing.other ≠ some s.threads.flagPing := fun he =>
      s.threads.flagPing.other_ne (Option.some.inj he)
    have hiff : u.Untaken s.threads.flagPing ↔ s.threads.Untaken s.threads.flagPing := by
      rw [hu]
      exact Iff.rfl
    by_cases huntaken : s.threads.Untaken s.threads.flagPing
    · rw [State.pending_of_untaken huntaken, State.pending_of_untaken (hiff.mpr huntaken), hu]
      rfl
    · rw [State.pending_of_reader_ne (mt hiff.mp huntaken) (by rw [hur]; exact hne),
        State.pending_of_reader_ne huntaken (by rw [hr]; exact hne)]
  have hqueue : u.sqlQueue = (getlines (read ++ l)).map copy := by
    rw [getlines_append hread, hl, List.map_append, ← h.queue, hu]
    rfl
  have hflag : u.flagPing = s.threads.flagPing := by rw [hu]
  refine ⟨⟨?_, ?_, ?_, ?_, ?_⟩, ?_, hqueue⟩
  · show ∀ f, u.reader.taken = some f → f = u.flagPing.other ∧ u.writingDone f = false
    rw [hur, hflag, hu]
    rintro f ⟨⟩
    exact htaken
  · show ∀ f m, u.reader = .reading f m → m ≤ (u.disk f).length
    rw [hur]
    rintro f m ⟨⟩
    exact hlen
  · rw [hu]
    exact h.writing
  · rw [hu]
    exact h.absent
  · rw [hu]
    exact h.fresh
  · show Relay s.received (read ++ l) (u.pending u.flagPing.other) (u.pending u.flagPing)
    rw [hflag, hother, hcurrent]
    exact hrelay

theorem Intake.getline (h : Intake s read) {n : ℕ} (hr : s.threads.reader = .reading fp n)
    (hwhole : s.threads.writer.fp = some fp → s.threads.buffer ≠ [] →
      '\n' ∈ (s.threads.disk fp).drop n) :
    ∃ read', Intake ⟨s.threads.getline fp n, s.received, s.arrived⟩ read' := by
  obtain ⟨rfl, hdone⟩ := h.taken fp (by rw [hr]; rfl)
  have hpending := pending_of_offset (h.not_untaken_other hdone) hr (h.offset _ n hr)
  have hrelay := h.relay
  rw [hpending] at hrelay
  have hempty : '\n' ∉ (s.threads.disk s.threads.flagPing.other).drop n →
      (if s.threads.writer.fp = some s.threads.flagPing.other then s.threads.buffer else []) = [] := by
    intro hno
    split_ifs with hw
    · by_contra hbuffer
      exact hno (hwhole hw hbuffer)
    · rfl
  unfold State.getline
  dsimp only
  by_cases hrest : (s.threads.disk s.threads.flagPing.other).drop n = []
  · -- End of file.
    rw [if_pos hrest]
    rw [hempty (by simp [hrest]), hrest, List.append_nil] at hpending
    refine ⟨read, h.stay ⟨?_, nofun, h.writing, h.absent, h.fresh⟩ rfl rfl (fun f => ?_) rfl⟩
    · rintro f ⟨⟩
      exact ⟨rfl, hdone⟩
    · by_cases hf : s.threads.Untaken f
      · exact (State.pending_of_untaken (by exact hf)).trans (State.pending_of_untaken hf).symm
      · apply (State.pending_of_reader_ne (by exact hf) fun he => by cases he).trans
        by_cases hfo : f = s.threads.flagPing.other
        · rw [hfo, hpending]
        · refine (State.pending_of_reader_ne hf ?_).symm
          rw [hr]
          exact fun he => hfo (Option.some.inj he).symm
  · rw [if_neg hrest]
    have hread : LineEnd read := hrelay.lineEnd (by simp [hrest])
    by_cases hnewline : '\n' ∈ (s.threads.disk s.threads.flagPing.other).drop n
    · obtain ⟨hline, r, hr'⟩ := firstLine_of_mem hnewline
      refine ⟨_, h.take hr hr' hline.getlines (Relay.takeLine ?_ hline) hread rfl⟩
      rwa [← List.append_assoc, ← hr']
    · -- The last line of the file, which is there to its end.
      have hline := firstLine_of_not_mem hnewline
      rw [hempty hnewline, List.append_nil] at hrelay
      rw [hline]
      refine ⟨_, h.take hr (List.append_nil _).symm (getlines_of_not_mem hnewline hrest) ?_ hread rfl⟩
      rw [hempty hnewline]
      exact hrelay.takeRest

end Steps

namespace Session
variable {s t : Session} {l : Label} {read : Text}

theorem step_eq_some (h : step s l = some t) :
    (s.arrived && l.arrives) = false ∧
      ∃ u, PingPong.step s.threads l = some u ∧
        t = ⟨u, s.received ++ l.received, l.arrives || s.arrived⟩ := by
  unfold step at h
  split_ifs at h with harrived
  obtain ⟨u, hu, rfl⟩ := Option.map_eq_some_iff.mp h
  exact ⟨by simpa using harrived, u, hu, rfl⟩

theorem step_of_step {u : State} (hl : l.arrives = false) (h : PingPong.step s.threads l = some u) :
    s.step l = some ⟨u, s.received ++ l.received, s.arrived⟩ := by
  rw [step, hl, Bool.and_false, if_neg Bool.false_ne_true, h]
  rfl

end Session

/-- The step lemma: if the writer waits for the reader, and no line crosses from one file to the
other, what has been taken and what is left still make up what has been received. -/
theorem Intake.step {s t : Session} {l : Label} {read : Text} (h : Intake s read)
    (hwaits : s.Waits l) (hseamless : s.Seamless l) (ht : s.step l = some t) :
    ∃ read', Intake t read' := by
  obtain ⟨harrived, u, hu, rfl⟩ := Session.step_eq_some ht
  -- Most steps receive nothing.
  have hsame : ∀ {read' : Text} {arrived : Bool}, Intake ⟨u, s.received, arrived⟩ read' →
      Intake ⟨u, s.received ++ [], arrived⟩ read' := by
    intro read' arrived hnext
    rwa [List.append_nil]
  cases steps_of_step hu with
  | connect hw => exact ⟨read, hsame (h.connect hw ((Bool.and_true _).symm.trans harrived))⟩
  | retry hw => exact ⟨read, hsame (h.retry hw)⟩
  | switch hw => exact ⟨read, hsame (h.switch hw hwaits)⟩
  | @recv fp r bytes hw hrecv =>
    exact ⟨read, h.recv hw bytes (hseamless fp (by rw [hw]; rfl)) _ _⟩
  | recvAgain hw => exact ⟨read, hsame (h.recvAgain hw _ _)⟩
  | exit hw => exact ⟨read, hsame (h.exit hw)⟩
  | flush hw => exact ⟨read, hsame (h.flush hw _)⟩
  | fclose hw => exact ⟨read, hsame (h.fclose hw)⟩
  | poll hr => exact ⟨read, hsame (h.poll hr)⟩
  | getline hr =>
    rw [Session.Seamless, hr] at hseamless
    obtain ⟨read', hnext⟩ := h.getline hr hseamless
    exact ⟨read', hsame hnext⟩
  | finish hr => exact ⟨read, hsame (h.finish hr)⟩

theorem intake_start {files : File → Text} (hpong : files .pong = []) :
    Intake (Session.start files) [] where
  taken := nofun
  offset := nofun
  writing := nofun
  absent _ := rfl
  fresh _ := ⟨rfl, rfl⟩
  relay := by
    have hother : (initial files).pending .pong = [] := by
      rw [State.pending_of_untaken (.inl rfl)]
      simp [State.content, initial, hpong, Writer.fp]
    have hcurrent : (initial files).pending .ping = [] :=
      pending_of_polling rfl (by simp [State.Untaken, initial])
    show Relay [] [] ((initial files).pending .pong) ((initial files).pending .ping)
    rw [hother, hcurrent]
    exact .empty
  queue := rfl

section Whole
variable {s : Session} {read : Text}

theorem Intake.sqlQueue_prefix (h : Intake s read) :
    s.threads.sqlQueue <+: (getlines s.received).map copy :=
  h.queue ▸ h.relay.getlines_prefix.map copy

theorem Intake.sqlQueue_eq (h : Intake s read) (hs : s.Finished) :
    s.threads.sqlQueue = (getlines s.received).map copy := by
  have hnil : ∀ f, s.threads.pending f = [] := by
    intro f
    apply pending_of_polling hs.reader
    simp [State.Untaken, hs.writingDone f, hs.writer]
  have heq := h.relay.eq
  rw [hnil, hnil, List.append_nil, List.append_nil] at heq
  rw [h.queue, heq]

theorem short_iff_map_copy : s.Short ↔ (getlines s.received).map copy = getlines s.received := by
  rw [map_copy_eq_self_iff]
  exact forall₂_congr fun l _ => copy_eq_self_iff.symm

theorem Intake.intact (h : Intake s read) (hs : s.Short) : s.Intact := by
  have hcopy := short_iff_map_copy.mp hs
  refine ⟨?_, fun hfinished => ?_⟩
  · rw [← hcopy]
    exact h.sqlQueue_prefix
  · rw [h.sqlQueue_eq hfinished, hcopy]

theorem Intake.short (h : Intake s read) (hfinished : s.Finished) (hs : s.Intact) : s.Short := by
  rw [short_iff_map_copy, ← h.sqlQueue_eq hfinished]
  exact hs.2 hfinished

end Whole

/-- The run rule, for a server that finds no old `pong.txt`. Where every file begins with the
beginning of a line, and no file is read to an end that is not its own, the lines in the queue are
those of the stream: always, if these fit the copies, and at the end only then. -/
theorem Session.intact_iff_short {files : File → Text} (hpong : files .pong = []) {ls : List Label}
    (h : Along Session.step (fun s l => s.Waits l ∧ s.Seamless l) (start files) ls) :
    ∀ s, Visits Session.step (start files) ls s →
      (s.Short → s.Intact) ∧ (s.Finished → s.Intact → s.Short) := by
  intro s hs
  obtain ⟨read, hread⟩ := h.invariant (I := fun t => ∃ read, Intake t read)
    ⟨[], intake_start hpong⟩ (fun t l u ⟨_, ht⟩ hG hu => ht.step hG.1 hG.2 hu) s hs
  exact ⟨hread.intact, hread.short⟩

section Switched
variable {k : ℕ} {w : Text}

/-- `k` newlines have been received. -/
def midway (k : ℕ) : State where
  flagPing := .ping
  enqueueDone _ := true
  writingDone _ := false
  writingCount := k
  socketIsActive := true
  writer := .writing .ping false
  reader := .polling
  disk _ := []
  buffer := List.replicate k '\n'
  sqlQueue := []
  seen _ := 0
  leftOver f := f = .ping

/-- The text `w` has come behind the newlines, and the files have been switched; since then the
reader has read `n` lines. -/
def switched (w : Text) (k n : ℕ) : State where
  flagPing := .pong
  enqueueDone f := f = .ping
  writingDone _ := false
  writingCount := 0
  socketIsActive := true
  writer := .writing .pong true
  reader := .reading .ping n
  disk f := if f = .ping then List.replicate k '\n' ++ w else []
  buffer := []
  sqlQueue := List.replicate n ['\n']
  seen f := if f = .ping then n else 0
  leftOver f := f = .ping

theorem File.funext {α : Type*} {g g' : File → α} (hping : g .ping = g' .ping)
    (hpong : g .pong = g' .pong) : g = g' := by
  funext f
  cases f
  · exact hping
  · exact hpong

theorem run_opening :
    runFrom Session.step (Session.start fun _ => []) [.poll, .getline, .finish, .connect, .retry] =
      some ⟨midway 0, [], true⟩ := by
  refine congrArg (fun t => some (Session.mk t [] true)) ?_
  rw [midway]
  show State.mk _ _ _ _ _ _ _ _ _ _ _ _ = _
  rw [State.mk.injEq]
  exact ⟨rfl, File.funext rfl rfl, File.funext rfl rfl, rfl, rfl, rfl, rfl, File.funext rfl rfl,
    rfl, rfl, File.funext rfl rfl, File.funext rfl rfl⟩

theorem lineEnd_replicate (j : ℕ) : LineEnd (List.replicate j '\n') := by
  induction j with
  | zero => rfl
  | succ j ih => exact LineEnd.append (t := ['\n']) (lineEnd_line (w := []) List.not_mem_nil) ih

theorem run_receiving (k j : ℕ) (h : j + k ≤ pingPongLineCount) :
    runFrom Session.step ⟨midway j, List.replicate j '\n', true⟩ (List.replicate k (.recv ['\n'])) =
        some ⟨midway (j + k), List.replicate (j + k) '\n', true⟩ ∧
      Along Session.step (fun s l => s.Waits l ∧ s.Seamless l)
        ⟨midway j, List.replicate j '\n', true⟩ (List.replicate k (.recv ['\n'])) := by
  induction k generalizing j with
  | zero => exact ⟨rfl, along_nil _ _⟩
  | succ k ih =>
    have hrecv : (midway j).BeforeRecv false ∧ 0 < ['\n'].length ∧ ['\n'].length ≤ bufferSize :=
      ⟨.inr (show j ≤ pingPongLineCount by omega), by decide, by decide⟩
    have hstep : Session.step ⟨midway j, List.replicate j '\n', true⟩ (.recv ['\n']) =
        some ⟨midway (j + 1), List.replicate (j + 1) '\n', true⟩ := by
      have hthreads : step (midway j) (.recv ['\n']) = some (midway (j + 1)) := by
        refine (if_pos hrecv).trans (congrArg some ?_)
        rw [midway, midway, List.replicate_succ']
        rfl
      rw [Session.step_of_step rfl hthreads, List.replicate_succ']
      rfl
    obtain ⟨hrun, hG⟩ := ih (j + 1) (by omega)
    rw [List.replicate_succ, runFrom_cons_of_step hstep, hrun, Nat.add_right_comm j 1 k]
    exact ⟨rfl, along_cons hstep ⟨trivial, fun _ _ _ => lineEnd_replicate j⟩ hG⟩

theorem run_reading (k m n : ℕ) (received : Text) (h : n + m ≤ k) :
    runFrom Session.step ⟨switched w k n, received, true⟩ (List.replicate m .getline) =
        some ⟨switched w k (n + m), received, true⟩ ∧
      Along Session.step (fun s l => s.Waits l ∧ s.Seamless l) ⟨switched w k n, received, true⟩
        (List.replicate m .getline) := by
  induction m generalizing n with
  | zero => exact ⟨rfl, along_nil _ _⟩
  | succ m ih =>
    have hrest : ((switched w k n).disk .ping).drop n =
        '\n' :: (List.replicate (k - n - 1) '\n' ++ w) := by
      show (List.replicate k '\n' ++ w).drop n = _
      rw [List.drop_append_of_le_length (by rw [List.length_replicate]; omega), List.drop_replicate,
        show k - n = (k - n - 1) + 1 by omega, List.replicate_succ]
      rfl
    have hstep : Session.step ⟨switched w k n, received, true⟩ .getline =
        some ⟨switched w k (n + 1), received, true⟩ := by
      have hthreads : step (switched w k n) .getline = some (switched w k (n + 1)) := by
        show some ((switched w k n).getline .ping n) = _
        unfold State.getline
        rw [hrest]
        dsimp only
        rw [if_neg (List.cons_ne_nil _ _)]
        refine congrArg some ?_
        rw [switched, switched, State.mk.injEq]
        refine ⟨rfl, rfl, rfl, rfl, rfl, rfl, rfl, rfl, rfl, ?_, File.funext ?_ rfl, rfl⟩
        · rw [List.replicate_succ']
          rfl
        · show (if n ≤ n then max n (n + 1) else n) = n + 1
          rw [if_pos (Nat.le_refl n), Nat.max_eq_right (Nat.le_succ n)]
      rw [Session.step_of_step rfl hthreads]
      exact congrArg (fun received => some (Session.mk _ received true)) (List.append_nil _)
    obtain ⟨hrun, hG⟩ := ih (n + 1) (by omega)
    rw [List.replicate_succ, runFrom_cons_of_step hstep, hrun, Nat.add_right_comm n 1 m]
    exact ⟨rfl, along_cons hstep ⟨trivial, nofun⟩ hG⟩

theorem run_switching (hw : 0 < w.length) (hlen : w.length < bufferSize) :
    runFrom Session.step ⟨midway pingPongLineCount, List.replicate pingPongLineCount '\n', true⟩
        [.recv w, .switch, .poll] =
        some ⟨switched w pingPongLineCount 0, List.replicate pingPongLineCount '\n' ++ w, true⟩ ∧
      Along Session.step (fun s l => s.Waits l ∧ s.Seamless l)
        ⟨midway pingPongLineCount, List.replicate pingPongLineCount '\n', true⟩
        [.recv w, .switch, .poll] := by
  obtain ⟨k, hk⟩ : ∃ k, k = pingPongLineCount := ⟨_, rfl⟩
  rw [← hk]
  obtain ⟨t, ht⟩ : ∃ t, t = { midway k with
    writingCount := k + 1, buffer := List.replicate k '\n' ++ w } := ⟨_, rfl⟩
  have hrecv : step (midway k) (.recv w) = some t := by
    refine (if_pos ⟨.inr (Nat.le_of_eq hk), hw, hlen.le⟩).trans (congrArg some ?_)
    rw [decide_eq_false hlen.ne, ht]
    rfl
  have hswitch : step t .switch = some (t.switch .ping) := by
    rw [ht]
    exact if_pos (show pingPongLineCount < k + 1 by omega)
  have hpoll : step (t.switch .ping) .poll = some (switched w k 0) := by
    rw [ht]
    refine congrArg some ?_
    rw [switched]
    show State.mk _ _ _ _ _ _ _ _ _ _ _ _ = _
    rw [State.mk.injEq]
    refine ⟨rfl, File.funext rfl rfl, File.funext rfl rfl, rfl, rfl, rfl, rfl, File.funext ?_ rfl, rfl,
      rfl, File.funext rfl rfl, File.funext rfl rfl⟩
    exact List.take_length
  refine ⟨?_, ?_⟩
  · rw [runFrom_cons_of_step (Session.step_of_step rfl hrecv),
      runFrom_cons_of_step (Session.step_of_step rfl hswitch),
      runFrom_cons_of_step (Session.step_of_step rfl hpoll)]
    simp [Label.received]
  · refine along_cons (Session.step_of_step rfl hrecv) ⟨trivial, fun _ _ _ => lineEnd_replicate k⟩ ?_
    refine along_cons (Session.step_of_step rfl hswitch) ⟨?_, trivial⟩ ?_
    · rw [ht]
      exact fun _ => ⟨nofun, rfl⟩
    · exact along_of_forall_mem (by simp [Session.Waits, Session.Seamless]) _

theorem run_closing (hw : w = ['a'] ∨ w = ['a', '\n']) (k : ℕ) (received : Text) :
    ∃ s, runFrom Session.step ⟨switched w k k, received, true⟩
        [.getline, .getline, .finish, .recv ['b', '\n'], .exit, .fclose, .poll, .getline, .getline,
          .finish] = some s ∧ s.Finished ∧ s.received = received ++ ['b', '\n'] ∧
      s.threads.sqlQueue = List.replicate k ['\n'] ++ [w, ['b', '\n']] ∧
      (LineEnd received → Along Session.step (fun s l => s.Waits l ∧ s.Seamless l)
        ⟨switched w k k, received, true⟩
        [.getline, .getline, .finish, .recv ['b', '\n'], .exit, .fclose, .poll, .getline, .getline,
          .finish]) := by
  have hrest : ((switched w k k).disk .ping).drop k = w :=
    List.drop_left' (List.length_replicate ..)
  obtain ⟨t, ht⟩ : ∃ t, t = { switched w k k with
    reader := .reading .ping (k + w.length)
    sqlQueue := List.replicate k ['\n'] ++ [w]
    seen := update (switched w k k).seen .ping (k + w.length) } := ⟨_, rfl⟩
  have hline : step (switched w k k) .getline = some t := by
    show some ((switched w k k).getline .ping k) = _
    unfold State.getline
    rw [hrest, ht]
    rcases hw with rfl | rfl
    all_goals
      refine congrArg some ?_
      show State.mk _ _ _ _ _ _ _ _ _ _ _ _ = _
      rw [State.mk.injEq]
      refine ⟨rfl, rfl, rfl, rfl, rfl, rfl, rfl, rfl, rfl, rfl, File.funext ?_ rfl, rfl⟩
      show (if k ≤ k then max k (k + _) else k) = k + _
      rw [if_pos (Nat.le_refl k), Nat.max_eq_right (Nat.le_add_right k _)]
      rfl
  have hend : step t .getline = some { t with reader := .closed .ping } := by
    have hnil : (t.disk .ping).drop (k + w.length) = [] := by
      rw [ht, ← List.drop_drop]
      exact (congrArg (List.drop w.length) hrest).trans List.drop_length
    rw [ht] at hnil ⊢
    exact congrArg some (if_pos hnil)
  have hlineStep := Session.step_of_step (s := ⟨switched w k k, received, true⟩) rfl hline
  rw [runFrom_cons_of_step hlineStep,
    runFrom_cons_of_step (Session.step_of_step rfl hend)]
  rw [ht]
  refine ⟨_, rfl, ⟨rfl, rfl, ?_⟩, ?_, ?_, fun hlineEnd => ?_⟩
  · intro f
    cases f <;> rfl
  · simp [Label.received]
  · exact List.append_assoc ..
  · refine along_cons hlineStep ⟨trivial, nofun⟩ ?_
    refine along_cons (Session.step_of_step rfl hend) ⟨trivial, by rw [ht]; nofun⟩ ?_
    rw [ht]
    refine along_cons rfl ⟨trivial, trivial⟩ (along_cons rfl ⟨trivial, fun _ _ _ => ?_⟩ ?_)
    · simpa [Label.received] using hlineEnd
    · refine along_cons rfl ⟨trivial, trivial⟩ (along_cons rfl ⟨trivial, trivial⟩
        (along_cons rfl ⟨trivial, trivial⟩ (along_cons rfl ⟨trivial, nofun⟩
          (along_cons rfl ⟨trivial, nofun⟩ (along_cons rfl ⟨trivial, trivial⟩ (along_nil _ _))))))

theorem getlines_replicate (k : ℕ) (t : Text) :
    getlines (List.replicate k '\n' ++ t) = List.replicate k ['\n'] ++ getlines t := by
  induction k with
  | zero => rfl
  | succ k ih =>
    rw [List.replicate_succ, List.replicate_succ, List.cons_append, List.cons_append, ← ih]
    exact getlines_line (w := []) List.not_mem_nil _

/-- The text `w` comes before the files are switched, and `"b\n"` after it. The reader has finished
with the other file, and is then done with each file before it is closed. -/
def pastSwitch (w : Text) : List Label :=
  let newline : Label := .recv ['\n']
  let opening : List Label := [.poll, .getline, .finish, .connect, .retry]
  let switching : List Label := [.recv w, .switch, .poll]
  let closing : List Label :=
    [.getline, .getline, .finish, .recv ['b', '\n'], .exit, .fclose, .poll, .getline, .getline,
      .finish]
  opening ++ (List.replicate pingPongLineCount newline ++
    (switching ++ (List.replicate pingPongLineCount .getline ++ closing)))

theorem run_pastSwitch (hw : w = ['a'] ∨ w = ['a', '\n']) : ∃ s,
    runFrom Session.step (Session.start fun _ => []) (pastSwitch w) = some s ∧ s.Finished ∧
      s.received = List.replicate pingPongLineCount '\n' ++ w ++ ['b', '\n'] ∧
      s.threads.sqlQueue = List.replicate pingPongLineCount ['\n'] ++ [w, ['b', '\n']] ∧
      Along Session.step Session.Waits (Session.start fun _ => []) (pastSwitch w) ∧
      (LineEnd w → Along Session.step (fun s l => s.Waits l ∧ s.Seamless l)
        (Session.start fun _ => []) (pastSwitch w)) := by
  obtain ⟨s, hclosing, hfinished, hreceived, hqueue, hseamless⟩ := run_closing hw pingPongLineCount
    (List.replicate pingPongLineCount '\n' ++ w)
  obtain ⟨hreceiving, hGreceiving⟩ := run_receiving pingPongLineCount 0 (by omega)
  rw [Nat.zero_add, List.replicate_zero] at hreceiving
  obtain ⟨hswitching, hGswitching⟩ := run_switching (w := w) (by rcases hw with rfl | rfl <;> decide)
    (by rcases hw with rfl | rfl <;> decide)
  obtain ⟨hreading, hGreading⟩ := run_reading (w := w) pingPongLineCount pingPongLineCount 0
    (List.replicate pingPongLineCount '\n' ++ w) (by omega)
  rw [Nat.zero_add] at hreading
  have hGopening : Along Session.step (fun s l => s.Waits l ∧ s.Seamless l) (Session.start fun _ => [])
      [.poll, .getline, .finish, .connect, .retry] := by decide +kernel
  have hwaits : ∀ {t : Session} {ls : List Label}, Along Session.step (fun s l => s.Waits l ∧ s.Seamless l)
      t ls → Along Session.step Session.Waits t ls := fun h t l htakes => (h t l htakes).1
  refine ⟨s, ?_, hfinished, hreceived, hqueue, ?_, fun hend => ?_⟩
  · rw [pastSwitch, runFrom_append, run_opening, Option.bind_some, runFrom_append, hreceiving,
      Option.bind_some, runFrom_append, hswitching, Option.bind_some, runFrom_append, hreading,
      Option.bind_some, hclosing]
  · refine along_append run_opening (hwaits hGopening) (along_append hreceiving (hwaits hGreceiving)
      (along_append hswitching (hwaits hGswitching) (along_append hreading (hwaits hGreading) ?_)))
    exact along_of_forall_mem (by simp [Session.Waits]) _
  · exact along_append run_opening hGopening (along_append hreceiving hGreceiving
      (along_append hswitching hGswitching (along_append hreading hGreading
        (hseamless ((lineEnd_replicate _).append hend)))))

end Switched

/-- The files are switched between two lines. -/
theorem Session.intact_iff_short_switched : ∃ s,
    runFrom Session.step (start fun _ => []) (pastSwitch ['a', '\n']) = some s ∧ s.Finished ∧
      s.threads.sqlQueue = List.replicate pingPongLineCount ['\n'] ++ [['a', '\n'], ['b', '\n']] ∧
      s.Intact := by
  obtain ⟨s, hrun, hfinished, hreceived, hqueue, -, hG⟩ := run_pastSwitch (w := ['a', '\n']) (.inr rfl)
  refine ⟨s, hrun, hfinished, hqueue,
    (intact_iff_short rfl (hG rfl) s ⟨_, List.prefix_rfl, hrun⟩).1 fun l hl => ?_⟩
  rw [hreceived, List.append_assoc, getlines_replicate] at hl
  rcases List.mem_append.mp hl with hl | hl
  · rw [List.eq_of_mem_replicate hl]
    decide
  · have hrest : getlines (['a', '\n'] ++ ['b', '\n']) = [['a', '\n'], ['b', '\n']] := rfl
    rw [hrest, List.mem_pair] at hl
    rcases hl with rfl | rfl <;> decide

/-- A line whose first byte comes before the files are switched, and the rest after it. -/
theorem Session.not_intact_splitLine : ∃ s,
    runFrom Session.step (start fun _ => []) (pastSwitch ['a']) = some s ∧
      Along Session.step Session.Waits (start fun _ => []) (pastSwitch ['a']) ∧
        s.Short ∧ s.Finished ∧ ¬ s.Intact := by
  obtain ⟨s, hrun, hfinished, hreceived, hqueue, hwaits, -⟩ := run_pastSwitch (w := ['a']) (.inl rfl)
  have hlines : getlines s.received =
      List.replicate pingPongLineCount ['\n'] ++ [['a', 'b', '\n']] := by
    rw [hreceived, List.append_assoc, getlines_replicate]
    rfl
  refine ⟨s, hrun, hwaits, fun l hl => ?_, hfinished, fun hintact => ?_⟩
  · rw [hlines] at hl
    rcases List.mem_append.mp hl with hl | hl
    · rw [List.eq_of_mem_replicate hl]
      decide
    · rw [List.mem_singleton.mp hl]
      decide
  · have heq := hintact.2 hfinished
    rw [hlines, hqueue] at heq
    exact absurd (List.append_cancel_left heq) (by decide)

end CLib.PingPong
