import CLib.PingPong.Threads

namespace CLib.PingPong
open CLib.Base Function

/-- The step opens no file that the reader has open or has not read to its end, and
nothing unread disappears from a file. -/
def Exclusive (s : State) (l : Label) : Prop :=
  (∀ f, opens s l = some f → s.reader.fp ≠ some f ∧ s.unread f = []) ∧
    ∀ t, step s l = some t → ∀ f, s.unread f = [] ∨ s.content f <+: t.content f

/-- A connection starts on no file that waits to be read, no switch relies on a
`g_enqueue_done` flag that is older than what was written to the file, and the reader
takes the file of an ended connection when nothing of it is left in the buffer. -/
def Orderly (s : State) : Label → Prop
  | .retry => s.enqueueDone s.flagPing.other → s.writingDone s.flagPing = false
  | .switch => s.enqueueDone s.flagPing.other → s.leftOver s.flagPing.other = false
  | .poll => s.writingDone s.flagPing.other = false → s.socketIsActive = false →
      s.writingDone s.flagPing → s.buffer = []
  | _ => True

instance (s : State) : DecidablePred (Orderly s)
  | .retry | .switch | .poll => inferInstanceAs (Decidable (_ → _))
  | .connect | .recv _ | .recvAgain | .exit | .flush _ | .fclose | .getline | .finish => .isTrue trivial

/-- What the flags say about the threads and the files. -/
structure Handshake (s : State) : Prop where
  taken : ∀ f, s.reader.taken = some f → f = s.flagPing.other ∧ s.writingDone f = false
  offset : ∀ f n, s.reader = .reading f n → n ≤ s.seen f
  connected : s.writer = .connected → s.socketIsActive
  writing : ∀ f r, s.writer = .writing f r →
    f = s.flagPing ∧ s.socketIsActive ∧ s.writingDone f = false
  exiting : ∀ f, s.writer = .exiting f → s.buffer = [] ∨ f = s.flagPing ∧ s.writingDone f
  truthful : ∀ f, s.enqueueDone f → s.leftOver f = false →
    s.writingDone f = false ∧ s.reader.taken ≠ some f ∧ ∀ r, s.writer ≠ .writing f r
  drained : ∀ f, s.writingDone f = false → s.reader.fp ≠ some f → (∀ r, s.writer ≠ .writing f r) →
    (s.disk f).length ≤ s.seen f

namespace Handshake
variable {s : State}

theorem initial (files : File → Text) : Handshake (initial files) where
  taken f h := by cases h
  offset f n h := by cases h
  connected h := by cases h
  writing f r h := by cases h
  exiting f h := by cases h
  truthful f h _ := by
    have hf : f = .ping := of_decide_eq_true h
    subst hf
    exact ⟨rfl, nofun, fun r => nofun⟩
  drained f _ _ _ := le_refl _

theorem reader_fp_of_taken {r : Reader} {f : File} (h : r.fp = some f) : r.taken = some f := by
  cases r <;> first | exact h | cases h

theorem connect (hs : Handshake s) (hw : s.writer = .absent) :
    Handshake { s with writer := .connected, socketIsActive := true } where
  taken := hs.taken
  offset := hs.offset
  connected _ := rfl
  writing f r h := by cases h
  exiting f h := by cases h
  truthful f hf hl := ⟨(hs.truthful f hf hl).1, (hs.truthful f hf hl).2.1, fun r => nofun⟩
  drained f hf hr _ := hs.drained f hf hr fun r => by rw [hw]; exact nofun

theorem opens_retry (hs : Handshake s) (hw : s.writer = .connected)
    (hG : s.writingDone s.flagPing = false) :
    s.reader.fp ≠ some s.flagPing ∧ (s.disk s.flagPing).length ≤ s.seen s.flagPing := by
  have hr : s.reader.fp ≠ some s.flagPing := fun h =>
    s.flagPing.ne_other (hs.taken _ (reader_fp_of_taken h)).1
  exact ⟨hr, hs.drained _ hG hr fun r => by rw [hw]; exact nofun⟩

theorem retry (hs : Handshake s) (hw : s.writer = .connected) (hG : Orderly s .retry) :
    Handshake s.retry := by
  unfold State.retry
  split_ifs with hdone
  case neg => exact hs
  have hG := hG hdone
  constructor
  case taken => exact hs.taken
  case offset =>
    intro f n h
    have hf := (hs.taken f (by rw [show s.reader = _ from h]; rfl)).1
    have hne : f ≠ s.flagPing := by rw [hf]; exact s.flagPing.other_ne
    simpa only [State.fopenW, update_of_ne hne] using hs.offset f n h
  case connected => exact nofun
  case writing =>
    rintro f r ⟨⟩
    exact ⟨rfl, hs.connected hw, hG⟩
  case exiting => exact nofun
  case truthful =>
    intro f hf hl
    -- The flag of the file just opened counts as left over, if it is set at all.
    have hne : f ≠ s.flagPing := by
      rintro rfl
      simp only [update_self] at hl
      rw [show s.enqueueDone s.flagPing = true from hf] at hl
      cases hl
    simp only [update_of_ne hne] at hl
    obtain ⟨hdone, htaken, -⟩ := hs.truthful f hf hl
    refine ⟨hdone, htaken, fun r h => hne ?_⟩
    cases h
    rfl
  case drained =>
    intro f hf hr hwriting
    have hne : f ≠ s.flagPing := by
      rintro rfl
      exact hwriting false rfl
    simp only [State.fopenW, update_of_ne hne]
    exact hs.drained f hf hr fun r => by rw [hw]; exact nofun

/-- A thread that stays in its file, or a byte more in its buffer, changes nothing of it. -/
theorem stay (hs : Handshake s) {fp : File} {r r' : Bool} (hw : s.writer = .writing fp r)
    (buffer : Text) (count : ℕ) :
    Handshake { s with writingCount := count, buffer := buffer, writer := .writing fp r' } where
  taken := hs.taken
  offset := hs.offset
  connected := nofun
  writing := by
    rintro f r ⟨⟩
    exact hs.writing fp _ hw
  exiting f h := by cases h
  truthful f hf hl := by
    obtain ⟨hdone, htaken, hwriting⟩ := hs.truthful f hf hl
    refine ⟨hdone, htaken, ?_⟩
    rintro r ⟨⟩
    exact hwriting _ hw
  drained f hf hr hwriting := by
    apply hs.drained f hf hr
    intro r h
    apply hwriting r'
    rw [hw] at h
    cases h
    rfl

theorem opens_switch (hs : Handshake s) (hdone : s.enqueueDone s.flagPing.other)
    (hG : s.leftOver s.flagPing.other = false) :
    s.reader = .polling ∧ (s.disk s.flagPing.other).length ≤ s.seen s.flagPing.other := by
  obtain ⟨hwait, htaken, hwriting⟩ := hs.truthful _ hdone hG
  have hpolling : s.reader = .polling := by
    cases hr : s.reader with
    | polling => rfl
    | reading f n =>
      have hf := (hs.taken f (by rw [hr]; rfl)).1
      exact absurd (by rw [hr, hf]; rfl) htaken
    | closed f =>
      have hf := (hs.taken f (by rw [hr]; rfl)).1
      exact absurd (by rw [hr, hf]; rfl) htaken
  exact ⟨hpolling, hs.drained _ hwait (by rw [hpolling]; exact nofun) hwriting⟩

theorem switch (hs : Handshake s) {fp : File} (hw : s.writer = .writing fp false)
    (hG : Orderly s .switch) : Handshake (s.switch fp) := by
  unfold State.switch
  split_ifs with hdone
  case neg => exact hs.stay hw s.buffer 0
  obtain ⟨hpolling, hseen⟩ := hs.opens_switch hdone (hG hdone)
  obtain ⟨rfl, hactive, hwait⟩ := hs.writing fp false hw
  have hfree := (hs.truthful _ hdone (hG hdone)).1
  constructor
  case taken =>
    intro f (h : s.reader.taken = some f)
    rw [hpolling] at h
    cases h
  case offset =>
    intro f n (h : s.reader = .reading f n)
    rw [hpolling] at h
    cases h
  case connected => exact nofun
  case writing =>
    rintro f r ⟨⟩
    exact ⟨rfl, hactive, (update_of_ne s.flagPing.other_ne _ _).trans hfree⟩
  case exiting => exact nofun
  case truthful =>
    intro f (hf : update s.enqueueDone s.flagPing.other false f) hl
    have hne : f ≠ s.flagPing.other := by
      rintro rfl
      rw [update_self] at hf
      cases hf
    -- The file just left was being written, so a set flag of it was left over before.
    obtain rfl : f = s.flagPing := by simpa using File.eq_other_of_ne hne
    rw [update_of_ne hne] at hf
    have hl : s.leftOver s.flagPing = false := (update_of_ne hne _ _).symm.trans hl
    exact absurd hw ((hs.truthful _ hf hl).2.2 false)
  case drained =>
    intro f (hf : update s.writingDone s.flagPing true f = false) _ hwriting
    by_cases hself : f = s.flagPing
    · rw [hself, update_self] at hf
      cases hf
    · exact absurd (by rw [File.eq_other_of_ne hself]) (hwriting true)

theorem exit (hs : Handshake s) {fp : File} {r : Bool} (hw : s.writer = .writing fp r) :
    Handshake (s.exit fp) := by
  obtain ⟨rfl, -, -⟩ := hs.writing fp r hw
  constructor
  case taken =>
    intro f h
    obtain ⟨rfl, hf⟩ := hs.taken f h
    exact ⟨rfl, (update_of_ne s.flagPing.other_ne _ _).trans hf⟩
  case offset => exact hs.offset
  case connected => exact nofun
  case writing => exact nofun
  case exiting =>
    rintro f ⟨⟩
    exact .inr ⟨rfl, update_self _ _ _⟩
  case truthful =>
    intro f hf hl
    obtain ⟨hwait, htaken, hwriting⟩ := hs.truthful f hf hl
    have hne : f ≠ s.flagPing := by
      rintro rfl
      exact hwriting r hw
    exact ⟨(update_of_ne hne _ _).trans hwait, htaken, fun r => nofun⟩
  case drained =>
    intro f (hf : update s.writingDone s.flagPing true f = false) hr _
    have hne : f ≠ s.flagPing := by
      rintro rfl
      rw [update_self] at hf
      cases hf
    rw [update_of_ne hne] at hf
    refine hs.drained f hf hr fun r' h => hne ?_
    rw [hw] at h
    cases h
    rfl

theorem flush (hs : Handshake s) {fp : File} (hw : s.writer.fp = some fp) (n : ℕ) :
    Handshake (s.flush fp n) where
  taken := hs.taken
  offset := hs.offset
  connected := hs.connected
  writing := hs.writing
  exiting f h := by
    rcases hs.exiting f h with hempty | hwait
    · exact .inl (by rw [State.flush, hempty, List.drop_nil])
    · exact .inr hwait
  truthful := hs.truthful
  drained f hf hr hwriting := by
    have hseen := hs.drained f hf hr hwriting
    by_cases hne : f = fp
    · subst hne
      have hexiting : s.writer = .exiting f := by
        cases h : s.writer with
        | absent => rw [h] at hw; cases hw
        | connected => rw [h] at hw; cases hw
        | writing g r =>
          rw [h] at hw
          cases hw
          exact absurd h (hwriting r)
        | exiting g => rw [h] at hw; cases hw; rfl
      rcases hs.exiting f hexiting with hempty | ⟨-, hwait⟩
      · simpa only [State.flush, update_self, hempty, List.take_nil, List.append_nil] using hseen
      · rw [show s.writingDone f = false from hf] at hwait
        cases hwait
    · simpa only [State.flush, update_of_ne hne] using hseen

theorem fclose (hs : Handshake s) {fp : File} (hw : s.writer = .exiting fp) :
    Handshake { s.fclose fp with writer := .absent } where
  taken := (hs.flush (by rw [hw]; rfl) s.buffer.length).taken
  offset := (hs.flush (by rw [hw]; rfl) s.buffer.length).offset
  connected := nofun
  writing := nofun
  exiting := nofun
  truthful f hf hl := ⟨(hs.truthful f hf hl).1, (hs.truthful f hf hl).2.1, fun r => nofun⟩
  drained f hf hr _ := (hs.flush (by rw [hw]; rfl) s.buffer.length).drained f hf hr
    fun r (h : s.writer = _) => by rw [hw] at h; cases h

/-- The reader takes a file that waits for it, and `g_flag_ping` is then the other one. -/
theorem take (hs : Handshake s) (hr : s.reader = .polling) {f : File} (hwait : s.writingDone f)
    (hwriting : ∀ g r, s.writer = .writing g r → g = f.other)
    (hexiting : ∀ g, s.writer = .exiting g → s.buffer = [] ∨ g = f.other) :
    Handshake { s with
      flagPing := f.other
      writingDone := update s.writingDone f false
      reader := .reading f 0 } := by
  constructor
  case taken =>
    rintro g ⟨⟩
    exact ⟨f.other_other.symm, update_self _ _ _⟩
  case offset =>
    rintro g n ⟨⟩
    exact Nat.zero_le _
  case connected => exact hs.connected
  case writing =>
    intro g r h
    obtain ⟨-, hactive, hdone⟩ := hs.writing g r h
    obtain rfl := hwriting g r h
    exact ⟨rfl, hactive, (update_of_ne f.other_ne _ _).trans hdone⟩
  case exiting =>
    intro g h
    rcases hexiting g h with hempty | rfl
    · exact .inl hempty
    · refine (hs.exiting _ h).imp_right fun hcurrent => ⟨rfl, ?_⟩
      exact (update_of_ne f.other_ne _ _).trans hcurrent.2
  case truthful =>
    intro g hg hl
    obtain ⟨hdone, -, hfree⟩ := hs.truthful g hg hl
    have hne : g ≠ f := by
      rintro rfl
      rw [hwait] at hdone
      cases hdone
    refine ⟨(update_of_ne hne _ _).trans hdone, fun h => hne ?_, hfree⟩
    cases h
    rfl
  case drained =>
    intro g hg hfp hfree
    have hne : g ≠ f := by
      rintro rfl
      exact hfp rfl
    exact hs.drained g ((update_of_ne hne _ _).symm.trans hg) (by rw [hr]; exact nofun) hfree

theorem poll (hs : Handshake s) (hr : s.reader = .polling) (hG : Orderly s .poll) :
    Handshake s.poll := by
  unfold State.poll
  split_ifs with hother hcurrent
  · have htake := hs.take hr hother (fun g r h => by simpa using (hs.writing g r h).1)
      fun g h => (hs.exiting g h).imp_right fun hwait => by simpa using hwait.1
    simpa only [File.other_other] using htake
  · obtain ⟨hactive, hwait⟩ := Bool.and_eq_true_iff.mp hcurrent
    have hactive : s.socketIsActive = false := by simpa using hactive
    have hempty := hG (by simpa using hother) hactive hwait
    apply hs.take hr hwait
    · intro g r h
      have hbusy := (hs.writing g r h).2.1
      rw [hactive] at hbusy
      cases hbusy
    · exact fun g _ => .inl hempty
  · exact hs

theorem getline (hs : Handshake s) {fp : File} {n : ℕ} (hr : s.reader = .reading fp n) :
    Handshake (s.getline fp n) := by
  have htaken : s.reader.taken = some fp := by rw [hr]; rfl
  unfold State.getline
  dsimp only
  by_cases hrest : (s.disk fp).drop n = []
  · -- End of file: the offset has passed everything on the disk, and all before it was read.
    rw [if_pos hrest]
    have hend : (s.disk fp).length ≤ s.seen fp :=
      (List.drop_eq_nil_iff.mp hrest).trans (hs.offset fp n hr)
    refine ⟨fun f h => hs.taken f (htaken.trans h), nofun, hs.connected, hs.writing, hs.exiting,
      fun f hf hl => ?_, fun f hf _ hwriting => ?_⟩
    · obtain ⟨hwait, hfree, hwriting⟩ := hs.truthful f hf hl
      exact ⟨hwait, fun h => hfree (htaken.trans h), hwriting⟩
    · by_cases hne : f = fp
      · rw [hne]
        exact hend
      · refine hs.drained f hf (fun h => hne ?_) hwriting
        rw [hr] at h
        cases h
        rfl
  · rw [if_neg hrest]
    refine ⟨fun f h => hs.taken f (htaken.trans h), ?_, hs.connected, hs.writing, hs.exiting,
      fun f hf hl => ?_, fun f hf hfp hwriting => ?_⟩
    · rintro f m ⟨⟩
      simp only [update_self, if_pos (hs.offset fp n hr)]
      exact le_max_right _ _
    · obtain ⟨hwait, hfree, hwriting⟩ := hs.truthful f hf hl
      exact ⟨hwait, fun h => hfree (htaken.trans h), hwriting⟩
    · have hne : f ≠ fp := by
        rintro rfl
        exact hfp rfl
      simp only [update_of_ne hne]
      refine hs.drained f hf (fun h => hne ?_) hwriting
      rw [hr] at h
      cases h
      rfl

theorem finish (hs : Handshake s) {fp : File} (hr : s.reader = .closed fp) :
    Handshake s.finish := by
  -- The flag that is set belongs to the file that was read, as `g_flag_ping` is the other one.
  obtain ⟨rfl, hwait⟩ := hs.taken fp (by rw [hr]; rfl)
  refine ⟨nofun, nofun, hs.connected, hs.writing, hs.exiting, fun f hf hl => ?_, fun f hf _ => ?_⟩
  · by_cases hne : f = s.flagPing.other
    · subst hne
      exact ⟨hwait, nofun, fun r h => s.flagPing.other_ne (hs.writing _ r h).1⟩
    · have hf : s.enqueueDone f := (congrArg (· = true) (update_of_ne hne _ _)).mp hf
      obtain ⟨hwait, -, hwriting⟩ := hs.truthful f hf ((update_of_ne hne _ _).symm.trans hl)
      exact ⟨hwait, nofun, hwriting⟩
  · exact hs.drained f hf (by rw [hr]; exact nofun)

theorem step {t : State} {l : Label} (hs : Handshake s) (hG : Orderly s l)
    (h : step s l = some t) : Handshake t := by
  cases steps_of_step h with
  | connect hw => exact hs.connect hw
  | retry hw => exact hs.retry hw hG
  | switch hw => exact hs.switch hw hG
  | recv hw => exact hs.stay hw _ _
  | recvAgain hw => exact hs.stay hw _ _
  | exit hw => exact hs.exit hw
  | flush hw => exact hs.flush hw _
  | fclose hw => exact hs.fclose hw
  | poll hr => exact hs.poll hr hG
  | getline hr => exact hs.getline hr
  | finish hr => exact hs.finish hr

/-- A step that keeps to the order opens a file only when the reader is done with it. -/
theorem opened {l : Label} {t : State} (hs : Handshake s) (hG : Orderly s l)
    (h : PingPong.step s l = some t) {f : File} (hf : opens s l = some f) :
    s.reader.fp ≠ some f ∧ s.unread f = [] := by
  cases steps_of_step h with
  | retry hw =>
    obtain ⟨hdone, ⟨⟩⟩ := Option.ite_none_right_eq_some.mp hf
    obtain ⟨hr, hseen⟩ := hs.opens_retry hw (hG hdone)
    refine ⟨hr, List.drop_eq_nil_iff.mpr ?_⟩
    rwa [State.content, hw, if_neg nofun, List.append_nil]
  | switch hw =>
    obtain ⟨hdone, ⟨⟩⟩ := Option.ite_none_right_eq_some.mp hf
    obtain ⟨hpolling, hseen⟩ := hs.opens_switch hdone (hG hdone)
    refine ⟨by rw [hpolling]; exact nofun, List.drop_eq_nil_iff.mpr ?_⟩
    obtain ⟨rfl, -⟩ := hs.writing _ _ hw
    rwa [State.content, hw, if_neg (by simp [Writer.fp]), List.append_nil]
  | _ => cases hf

end Handshake

section Content
variable {s t : State} {f : File}

theorem content_of_open (h : s.writer.fp = some f) : s.content f = s.disk f ++ s.buffer := by
  rw [State.content, if_pos h]

theorem content_of_not_open (h : s.writer.fp ≠ some f) : s.content f = s.disk f := by
  rw [State.content, if_neg h, List.append_nil]

/-- Only the place of the bytes changes. -/
theorem content_flush {fp : File} (hw : s.writer.fp = some fp) (n : ℕ) :
    (s.flush fp n).content f = s.content f := by
  by_cases h : f = fp
  · subst h
    rw [content_of_open hw, content_of_open (s := s.flush f n) hw]
    simp only [State.flush, update_self, List.append_assoc, List.take_append_drop]
  · have hne : s.writer.fp ≠ some f := fun h' => h (Option.some.inj (h'.symm.trans hw))
    rw [content_of_not_open hne, content_of_not_open (s := s.flush fp n) hne]
    exact update_of_ne h _ _

theorem fclose_disk {fp : File} (hw : s.writer.fp = some fp) :
    (s.fclose fp).disk f = s.content f := by
  rw [← content_flush hw s.buffer.length, State.content]
  simp only [State.fclose, State.flush, List.drop_length, ite_self, List.append_nil]

/-- A file that a step does not open with mode `w` keeps what has been put into it. -/
theorem content_prefix_of_step {l : Label} (h : step s l = some t)
    (hopen : opens s l ≠ some f) : s.content f <+: t.content f := by
  cases steps_of_step h with
  | connect hw =>
    rw [content_of_not_open (by rw [hw]; exact nofun)]
    exact List.prefix_append _ _
  | retry hw =>
    unfold State.retry
    split_ifs with hdone
    · have hne : f ≠ s.flagPing := fun h => hopen (by rw [opens, if_pos hdone, h])
      rw [content_of_not_open (by rw [hw]; exact nofun), State.content]
      simp only [State.fopenW, update_of_ne hne]
      exact List.prefix_append _ _
    · exact List.prefix_rfl
  | @switch fp hw =>
    have hfp : s.writer.fp = some fp := by rw [hw]; rfl
    unfold State.switch
    split_ifs with hdone
    · have hne : f ≠ s.flagPing.other := fun h => hopen (by rw [opens, if_pos hdone, h])
      rw [← fclose_disk hfp, State.content]
      simp only [State.fopenW, update_of_ne hne]
      exact List.prefix_append _ _
    · rw [State.content, State.content, hw]
      exact List.prefix_rfl
  | @recv fp r bytes hw =>
    have hfp : s.writer.fp = some fp := by rw [hw]; rfl
    by_cases hself : fp = f
    · subst hself
      rw [content_of_open hfp, content_of_open]
      · exact (List.prefix_append_right_inj _).mpr (List.prefix_append s.buffer bytes)
      · rfl
    · rw [content_of_not_open fun h => hself (Option.some.inj (hfp.symm.trans h))]
      exact List.prefix_append _ _
  | recvAgain hw =>
    rw [State.content, State.content, hw]
    exact List.prefix_rfl
  | exit hw =>
    rw [State.content, State.content, hw]
    exact List.prefix_rfl
  | flush hw => rw [content_flush hw]
  | fclose hw =>
    rw [← fclose_disk (by rw [hw]; rfl)]
    exact List.prefix_append _ _
  | poll hr =>
    unfold State.poll
    split_ifs <;> exact List.prefix_rfl
  | getline hr =>
    unfold State.getline
    dsimp only
    split <;> exact List.prefix_rfl
  | finish hr => exact List.prefix_rfl

end Content

/-- In every run whose steps keep to the order, the writer opens a file with mode `w`
only when the reader has closed it and read all of it, and no byte is lost unread. -/
theorem exclusive_of_orderly (files : File → Text) (run : List Label)
    (h : Along step Orderly (initial files) run) : Along step Exclusive (initial files) run := by
  intro s l htakes
  have hs : Handshake s := h.invariant (Handshake.initial files)
    (fun _ _ _ hs hG ht => hs.step hG ht) s htakes.visits
  obtain ⟨u, hu⟩ := Option.isSome_iff_exists.mp htakes.choose_spec.2.2
  refine ⟨fun f hf => hs.opened (h s l htakes) hu hf, fun t ht f => ?_⟩
  by_cases hopen : opens s l = some f
  · exact .inl (hs.opened (h s l htakes) hu hopen).2
  · exact .inr (content_prefix_of_step ht hopen)

section Examples

/-- The reader takes up `pong.txt`, which is empty, and is ready again. -/
def readInitialPong : List Label := [.poll, .getline, .finish]

def connection : List Label := [.connect, .retry, .recv ['x'], .exit, .fclose]

/-- The reader takes up the file of the connection. -/
def readConnection : List Label := [.poll, .getline, .getline, .finish]

theorem exclusive_twoConnections : Along step Exclusive (initial fun _ => [])
    (readInitialPong ++ connection ++ readConnection ++ [.connect, .retry]) :=
  exclusive_of_orderly _ _ (by decide)

/-- The second connection truncates `ping.txt` before the reader has looked at it. -/
theorem not_exclusive :
    ¬ ∀ (files : File → Text) (run : List Label), Along step Exclusive (initial files) run := by
  intro h
  have hloss := (h (fun _ => []) (readInitialPong ++ connection ++ [.connect, .retry]) _ .retry
    ⟨readInitialPong ++ connection ++ [.connect], List.prefix_rfl, rfl, rfl⟩).1 .ping rfl
  exact absurd hloss.2 (by decide)

end Examples

end CLib.PingPong
