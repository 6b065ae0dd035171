import CLib.Server.Console

namespace CLib.Server
open CLib.Base

/-- The thread has not yet set the active flag of its slot. -/
def TalkPc.starting : TalkPc → Bool
  | .created | .indexed | .loaded => true
  | _ => false

/-- A session is over when its flag is cleared; what follows is the thread's end. -/
def TalkPc.unfinished : TalkPc → Bool
  | .released => false
  | _ => true

theorem TalkPc.unfinished_of_working {pc : TalkPc} (h : pc.working) : pc.unfinished := by
  cases pc <;> simp_all [working, unfinished]

theorem TalkPc.unfinished_of_starting {pc : TalkPc} (h : pc.starting) : pc.unfinished := by
  cases pc <;> simp_all [starting, unfinished]

theorem TalkPc.unfinished_cases {pc : TalkPc} (h : pc.unfinished) : pc.starting ∨ pc.working := by
  cases pc <;> simp_all [working, unfinished, starting]

namespace State

section Readers

/-- No two threads of `enqueue_func` are alive for one index. -/
def OneReaderPerSlot (s : State) : Prop :=
  ∀ r r' y y', s.enqueues r = some y → s.enqueues r' = some y' → y.index = y'.index → r = r'

/-- When `main` creates a reader, no earlier one of this index is alive. -/
def SpawnsOnlyReader (s : State) (l : Label) : Prop :=
  ∀ r i, l = .spawnEnqueue r → s.main = .talking i → ∀ r' y, s.enqueues r' = some y → y.index ≠ i

variable {servers : List Text} {s u : State} {l : Label}

theorem OneReaderPerSlot.update (h : OneReaderPerSlot s) {r : ℕ} {y : Option Enqueue}
    (hu : u.enqueues = Function.update s.enqueues r y)
    (hy : ∀ z, y = some z → ∀ r' y', r' ≠ r → s.enqueues r' = some y' → y'.index ≠ z.index) :
    OneReaderPerSlot u := by
  intro r₁ r₂ y₁ y₂ h₁ h₂ hindex
  rw [hu] at h₁ h₂
  rcases update_eq_some h₁ with ⟨hr₁, hy₁⟩ | ⟨hr₁, hy₁⟩ <;>
    rcases update_eq_some h₂ with ⟨hr₂, hy₂⟩ | ⟨hr₂, hy₂⟩
  · rw [hr₁, hr₂]
  · exact absurd hindex.symm (hy y₁ hy₁ r₂ y₂ hr₂ hy₂)
  · exact absurd hindex (hy y₂ hy₂ r₁ y₁ hr₁ hy₁)
  · exact h r₁ r₂ y₁ y₂ hy₁ hy₂ hindex

theorem OneReaderPerSlot.step (h : OneReaderPerSlot s) (hG : SpawnsOnlyReader s l)
    (hu : s.step servers l = some u) : OneReaderPerSlot u := by
  cases steps_of_step hu with
  | newDay | accept | count | store | spawnTalk | spawnTalkFails | spawnEnqueueFails => exact h
  | @spawnEnqueue r slot hm =>
    apply h.update rfl
    rintro z ⟨⟩ r' y' - hy'
    exact hG r slot rfl hm r' y' hy'
  | talk hx hu =>
    obtain ⟨-, -, henqueues, -⟩ := stepTalk_frame hu
    rw [OneReaderPerSlot, henqueues]
    exact h
  | @enqueue r y e u hy hu =>
    obtain ⟨y', henqueues, hindex⟩ := stepEnqueue_enqueues hu
    refine h.update henqueues fun z hz r' x hne hx heq => hne ?_
    exact h r' r x y hx hy (heq.trans (hindex z hz).1)

/-- The ends of `enqueue_func`: after the last line of a day that is over, at the end of a file
in which no line has been read, and by the wait limit or an error. -/
def EndsReader (s : State) (r : ℕ) : Label → Prop
  | .enqueue r' .next => r' = r ∧ ∃ y d n, s.enqueues r = some y ∧ y.pc = .atEof d n ∧ d ≠ s.fileName
  | .enqueue r' .eof => r' = r ∧ ∃ y d, s.enqueues r = some y ∧ y.pc = .opened d 0
  | .enqueue r' .stop => r' = r ∧ ∃ y d n, s.enqueues r = some y ∧ y.pc = .opened d n
  | _ => False

theorem stepEnqueue_ends {r : ℕ} {y : Enqueue} {e : EnqueueEvent} (hy : s.enqueues r = some y)
    (hu : s.stepEnqueue r y e = some u) : u.enqueues r = none ↔ EndsReader s r (.enqueue r e) := by
  have hset : ∀ z : Option Enqueue, (s.setEnqueue r z).enqueues r = z := fun z => by
    simp [setEnqueue]
  unfold stepEnqueue at hu
  cases e with
  | next =>
    cases hpc : y.pc with
    | created | named d | opened d n =>
      rw [hpc] at hu
      dsimp only at hu
      (try split_ifs at hu) <;> cases hu <;> simp [EndsReader, hset, hy, hpc]
    | atEof d n =>
      simp only [hpc, differs_agentFileName, decide_eq_true_eq] at hu
      split_ifs at hu with hold <;> cases hu
      · exact iff_of_true (Function.update_self r _ _) ⟨rfl, y, d, n, hy, hpc, hold⟩
      · rw [hset]
        refine iff_of_false (by simp) ?_
        rintro ⟨-, y', d', n', hy', hpc', hold'⟩
        obtain rfl : y = y' := Option.some.inj (hy.symm.trans hy')
        obtain ⟨rfl, -⟩ : d = d' ∧ n = n' := by simpa [hpc] using hpc'
        exact hold hold'
  | missing | line =>
    cases hpc : y.pc <;> rw [hpc] at hu <;> cases hu <;> simp [EndsReader, hset]
  | eof =>
    cases hpc : y.pc with
    | opened d n =>
      simp only [hpc] at hu
      split_ifs at hu with hn <;> cases hu
      · exact iff_of_true (hset none) ⟨rfl, y, d, hy, by rw [hpc, hn]⟩
      · simp [EndsReader, hset, hy, hpc, hn]
    | created | named d | atEof d n =>
      rw [hpc] at hu
      cases hu
  | stop =>
    cases hpc : y.pc with
    | opened d n =>
      rw [hpc] at hu
      cases hu
      exact iff_of_true (hset none) ⟨rfl, y, d, n, hy, hpc⟩
    | created | named d | atEof d n =>
      rw [hpc] at hu
      cases hu

theorem endsReader_iff {r : ℕ} {y : Enqueue} (hy : s.enqueues r = some y)
    (hu : s.step servers l = some u) : u.enqueues r = none ↔ EndsReader s r l := by
  have hkept : ∀ {l : Label}, ¬ EndsReader s r l → u.enqueues r = some y →
      (u.enqueues r = none ↔ EndsReader s r l) := fun hl h =>
    iff_of_false (by rw [h]; simp) hl
  cases steps_of_step hu with
  | newDay | accept | count | store | spawnTalk | spawnTalkFails | spawnEnqueueFails =>
    exact hkept not_false hy
  | @spawnEnqueue r' slot hm hfree =>
    have hne : r ≠ r' := fun hr => by rw [hr, hfree] at hy; cases hy
    exact hkept not_false ((Function.update_of_ne hne _ _).trans hy)
  | talk hx hu =>
    refine hkept not_false ?_
    rw [(stepTalk_frame hu).2.2.1]
    exact hy
  | @enqueue r' z e _ hz hu =>
    by_cases hr : r' = r
    · subst hr
      obtain rfl : z = y := Option.some.inj (hz.symm.trans hy)
      exact stepEnqueue_ends hz hu
    · obtain ⟨z', henqueues, -⟩ := stepEnqueue_enqueues hu
      have hends : ¬ EndsReader s r (.enqueue r' e) := by
        cases e <;> simp [EndsReader, hr]
      exact hkept hends (by rw [henqueues, Function.update_of_ne (Ne.symm hr), hy])

/-- A reader that is gone has ended in one of the ways of `EndsReader`. -/
theorem exists_endsReader {r : ℕ} {y : Enqueue} {ls : List Label} (hy : s.enqueues r = some y)
    (hrun : runFrom (step servers) s ls = some u) (hgone : u.enqueues r = none) :
    ∃ v l, Takes (step servers) s ls v l ∧ EndsReader v r l := by
  by_contra hno
  push Not at hno
  have hG : Along (step servers) (fun v l => ¬ EndsReader v r l) s ls := hno
  have halive : ∃ z, u.enqueues r = some z := by
    refine hG.invariant (I := fun v => ∃ z, v.enqueues r = some z) ⟨y, hy⟩ ?_ u ⟨ls, List.prefix_rfl, hrun⟩
    rintro v l w ⟨z, hz⟩ hl hw
    exact Option.ne_none_iff_exists'.mp fun hnone => hl ((endsReader_iff hz hw).mp hnone)
  rw [hgone] at halive
  obtain ⟨z, ⟨⟩⟩ := halive

/-- A run keeps to one reader for each index exactly if every reader is created
after the earlier ones of its index have ended. -/
theorem oneReaderPerSlot_iff (servers : List Text) (d : Day) (ls : List Label) :
    (∀ s, Visits (step servers) (initial d) ls s → OneReaderPerSlot s) ↔
      Along (step servers) SpawnsOnlyReader (initial d) ls := by
  refine along_iff_forall_visits (fun _ h => h) (by intro r _ y _ h; cases h)
    (fun s l u h hG hu => h.step hG hu) ?_
  rintro s l u hu h r i rfl hm r' y hy rfl
  change s.spawnEnqueue r = some u at hu
  simp only [State.spawnEnqueue, hm] at hu
  obtain ⟨hr, hu⟩ := Option.ite_none_right_eq_some.mp hu
  obtain rfl := Option.some.inj hu
  have hne : r' ≠ r := fun hrr => by rw [hrr, hr] at hy; cases hy
  refine hne (h r' r y ⟨y.index, .created⟩ ?_ (Function.update_self _ _ _) rfl)
  exact (Function.update_of_ne hne _ _).trans hy

def oneServer : List Text := ["10.0.0.1".toList]

def agentConn (socket : ℕ) : Conn := ⟨socket, ⟨10, 0, 0, 1⟩, none⟩

def newYear : Day := ⟨"20170101".toList, by decide⟩

/-- The agent connects, loses the connection and connects again. -/
def reconnect : List Label :=
  [Label.accept (agentConn 0), .main, .main, .spawnTalk 0, .spawnEnqueue 0] ++
    List.replicate 5 (Label.talk 0 .next) ++ [Label.talk 0 .fail] ++
    List.replicate 3 (Label.talk 0 .next) ++
    [Label.accept (agentConn 1), .main, .main, .spawnTalk 1, .spawnEnqueue 1]

/-- The reader of the first connection waits for its file when the second one is created. -/
theorem not_oneReaderPerSlot :
    ¬ ∀ (servers : List Text) (d : Day) (ls : List Label) (s : State),
      Visits (step servers) (initial d) ls s → OneReaderPerSlot s := by
  intro h
  have hrun : (runFrom (step oneServer) (initial newYear) reconnect).map
      (fun s => (s.enqueues 0, s.enqueues 1)) = some (some ⟨0, .created⟩, some ⟨0, .created⟩) := by
    decide +kernel
  obtain ⟨s, hs, hreaders⟩ := Option.map_eq_some_iff.mp hrun
  obtain ⟨h₀, h₁⟩ := Prod.mk.inj hreaders
  have heq := h oneServer newYear reconnect s ⟨reconnect, List.prefix_rfl, hs⟩ 0 1 _ _ h₀ h₁ rfl
  cases heq

end Readers

section Sessions

/-- At most one session for each slot, from its acceptance to its end, and every
session thread has the connection that it was started for. -/
structure OneSessionPerSlot (s : State) : Prop where
  threads : ∀ t t' x x', s.talks t = some x → s.talks t' = some x' → x.pc.unfinished →
    x'.pc.unfinished → x.slot = x'.slot → t = t'
  pending : ∀ i a c, s.main.session = some (i, a, c) → ∀ t x, s.talks t = some x →
    x.pc.unfinished → x.slot ≠ i
  socket : ∀ t x c, s.talks t = some x → x.newServerSocket = some c → c = x.accepted

/-- A connection that `main` admits finds no thread of its slot between its
creation and the setting of the active flag. -/
def AdmitsStarted (servers : List Text) (s : State) (l : Label) : Prop :=
  ∀ c i a, l = .accept c → s.admits servers c = some (i, a) → ∀ t x, s.talks t = some x →
    x.pc.starting → x.slot ≠ i

/-- What keeps the sessions apart: the active flag stands for every session past
its start, and the work area still holds the connection of a starting one. -/
structure Exclusive (servers : List Text) (s : State) : Prop
    extends Placed servers s, OneSessionPerSlot s where
  fresh : ∀ t x, s.talks t = some x → x.pc = .created ∨ x.pc = .indexed →
    (s.workAreas x.slot).newSocket = some x.accepted
  active : ∀ t x, s.talks t = some x → x.pc.working → s.socketActive x.slot = true

theorem exclusive_initial (servers : List Text) (d : Day) : Exclusive servers (initial d) where
  toPlaced := placed_initial servers d
  threads t t' x x' hx := by cases hx
  pending i a c hmain := by cases hmain
  socket t x c hx := by cases hx
  fresh t x hx := by cases hx
  active t x hx := by cases hx

variable {servers : List Text} {s u : State} {l : Label}

theorem Exclusive.accept (h : Exclusive servers s) {c : Conn}
    (hG : AdmitsStarted servers s (.accept c)) : Exclusive servers (s.accept servers c) where
  toPlaced := h.toPlaced.accept c
  threads := h.threads
  pending i a c' hs t x hx hun hslot := by
    cases hadm : s.admits servers c with
    | none => simp [State.accept, hadm, MainPc.session] at hs
    | some p =>
      obtain ⟨rfl, -, -⟩ : p.1 = i ∧ p.2 = a ∧ c = c' := by
        simpa [State.accept, hadm, MainPc.session] using hs
      -- The slot's flag is clear, so a thread of the slot would have to be starting.
      rcases TalkPc.unfinished_cases hun with hstart | hwork
      · exact hG c p.1 p.2 rfl hadm t x hx hstart hslot
      · have hactive := h.active t x hx hwork
        rw [hslot, (admits_eq_some hadm).2] at hactive
        cases hactive
  socket := h.socket
  fresh := h.fresh
  active := h.active

theorem Exclusive.store (h : Exclusive servers s) {slot : ℕ} {agent : Bool} {c : Conn}
    (hm : s.main = .counted slot agent c) :
    Exclusive servers { s with
      main := .stored slot agent c
      workAreas := Function.update s.workAreas slot ⟨some c, slot⟩ } where
  toPlaced := h.toPlaced.store hm
  threads := h.threads
  pending i a c' hs := h.pending i a c' (by rw [hm]; exact hs)
  socket := h.socket
  fresh t x hx hpc := by
    -- No thread of this slot is on its way to the work area that is overwritten.
    have hne : x.slot ≠ slot := h.pending slot agent c (by rw [hm]; rfl) t x hx
      (by rcases hpc with hpc | hpc <;> rw [hpc] <;> rfl)
    change (Function.update s.workAreas slot _ x.slot).newSocket = _
    rw [Function.update_of_ne hne]
    exact h.fresh t x hx hpc
  active := h.active

theorem OneSessionPerSlot.update (h : OneSessionPerSlot s) {t : ℕ} {y : Option Talk}
    (htalks : u.talks = Function.update s.talks t y)
    (hthread : ∀ z, y = some z → z.pc.unfinished → ∀ t' x', t' ≠ t → s.talks t' = some x' →
      x'.pc.unfinished → x'.slot ≠ z.slot)
    (hpending : ∀ i a c, u.main.session = some (i, a, c) → s.main.session = some (i, a, c) ∧
      ∀ z, y = some z → z.pc.unfinished → z.slot ≠ i)
    (hsocket : ∀ z c, y = some z → z.newServerSocket = some c → c = z.accepted) :
    OneSessionPerSlot u where
  threads t₁ t₂ x₁ x₂ h₁ h₂ hun₁ hun₂ hslot := by
    rw [htalks] at h₁ h₂
    rcases update_eq_some h₁ with ⟨ht₁, hx₁⟩ | ⟨ht₁, hx₁⟩ <;>
      rcases update_eq_some h₂ with ⟨ht₂, hx₂⟩ | ⟨ht₂, hx₂⟩
    · rw [ht₁, ht₂]
    · exact absurd hslot.symm (hthread x₁ hx₁ hun₁ t₂ x₂ ht₂ hx₂ hun₂)
    · exact absurd hslot (hthread x₂ hx₂ hun₂ t₁ x₁ ht₁ hx₁ hun₁)
    · exact h.threads t₁ t₂ x₁ x₂ hx₁ hx₂ hun₁ hun₂ hslot
  pending i a c hs t' x' hx' hun := by
    obtain ⟨hs', hnew⟩ := hpending i a c hs
    rw [htalks] at hx'
    rcases update_eq_some hx' with ⟨-, hx'⟩ | ⟨-, hx'⟩
    · exact hnew x' hx' hun
    · exact h.pending i a c hs' t' x' hx' hun
  socket t' x' c hx' hc := by
    rw [htalks] at hx'
    rcases update_eq_some hx' with ⟨-, hx'⟩ | ⟨-, hx'⟩
    · exact hsocket x' c hx' hc
    · exact h.socket t' x' c hx' hc

theorem Exclusive.spawnTalk (h : Exclusive servers s) {t slot : ℕ} {agent : Bool} {c : Conn}
    (hm : s.main = .stored slot agent c) :
    Exclusive servers { s.setTalk t (some ⟨slot, c, 0, none, .created⟩) with
      main := if agent then .talking slot else .waiting } := by
  have hfree := h.pending slot agent c (by rw [hm]; rfl)
  refine ⟨h.toPlaced.spawnTalk hm, h.toOneSessionPerSlot.update rfl ?_ ?_ ?_, ?_, ?_⟩
  · rintro z ⟨⟩ - t' x' - hx' hun
    exact hfree t' x' hx' hun
  · intro i a c' hs
    cases agent <;> cases hs
  · rintro z c' ⟨⟩ hc'
    cases hc'
  · apply forall_update h.fresh
    rintro z ⟨⟩ -
    change (s.workAreas slot).newSocket = some c
    rw [h.stored slot agent c hm]
  · apply forall_update h.active
    rintro z ⟨⟩ hwork
    cases hwork

theorem Exclusive.set (h : Exclusive servers s) (hplaced : Placed servers u) {t : ℕ} {x : Talk}
    (hx : s.talks t = some x) (hmain : u.main = s.main) (hareas : u.workAreas = s.workAreas)
    {y : Option Talk} (htalks : u.talks = Function.update s.talks t y)
    (hslot : ∀ z, y = some z → z.slot = x.slot ∧ (z.pc.unfinished → x.pc.unfinished) ∧
      ∀ c, z.newServerSocket = some c → c = z.accepted)
    (hfresh : ∀ z, y = some z → z.pc = .created ∨ z.pc = .indexed →
      (s.workAreas z.slot).newSocket = some z.accepted)
    (hactive : ∀ z, y = some z → z.pc.working → u.socketActive z.slot = true)
    (hothers : ∀ t' x', t' ≠ t → s.talks t' = some x' → x'.pc.working →
      u.socketActive x'.slot = true) : Exclusive servers u where
  toPlaced := hplaced
  toOneSessionPerSlot := by
    refine h.toOneSessionPerSlot.update htalks (fun z hz hun t' x' hne hx' hun' heq => hne ?_)
      (fun i a c hs => ?_) fun z c hz hc => (hslot z hz).2.2 c hc
    · exact h.threads t' t x' x hx' hx hun' ((hslot z hz).2.1 hun) (heq.trans (hslot z hz).1)
    · rw [hmain] at hs
      refine ⟨hs, fun z hz hun => ?_⟩
      rw [(hslot z hz).1]
      exact h.pending i a c hs t x hx ((hslot z hz).2.1 hun)
  fresh := by
    rw [htalks, hareas]
    exact forall_update h.fresh hfresh
  active t' x' hx' hwork := by
    rw [htalks] at hx'
    rcases update_eq_some hx' with ⟨-, hx'⟩ | ⟨hne, hx'⟩
    · exact hactive x' hx' hwork
    · exact hothers t' x' hne hx' hwork

theorem Exclusive.cleared (h : Exclusive servers s) {t : ℕ} {x : Talk} (hx : s.talks t = some x)
    (hpc : x.pc.working) (hactive : u.socketActive = Function.update s.socketActive x.index false) :
    ∀ t' x', t' ≠ t → s.talks t' = some x' → x'.pc.working → u.socketActive x'.slot = true := by
  intro t' x' hne hx' hwork
  have hindex : x.index = x.slot :=
    (h.talks t x hx).index fun hc => by rw [hc] at hpc; cases hpc
  -- Another working thread of the same slot would be a second session.
  have hslot : x'.slot ≠ x.index := fun heq => hne <|
    h.threads t' t x' x hx' hx (TalkPc.unfinished_of_working hwork)
      (TalkPc.unfinished_of_working hpc) (heq.trans hindex)
  rw [hactive, Function.update_of_ne hslot]
  exact h.active t' x' hx' hwork

theorem Exclusive.talk (h : Exclusive servers s) {t : ℕ} {x : Talk} {e : TalkEvent}
    (hx : s.talks t = some x) (hu : s.stepTalk t x e = some u) : Exclusive servers u := by
  have hplaced := h.toPlaced.talk hx hu
  obtain ⟨hmain, hareas, -, -⟩ := stepTalk_frame hu
  have hindex : x.pc ≠ .created → x.index = x.slot := (h.talks t x hx).index
  have hsame : u.socketActive = s.socketActive → ∀ t' x', t' ≠ t → s.talks t' = some x' →
      x'.pc.working → u.socketActive x'.slot = true := fun hactive t' x' _ hx' hwork => by
    rw [hactive]
    exact h.active t' x' hx' hwork
  cases stepTalk_effect hu with
  | idle htalks hactive =>
    exact ⟨hplaced, ⟨htalks ▸ h.threads, by rw [htalks, hmain]; exact h.pending, htalks ▸ h.socket⟩,
      by rw [htalks, hareas]; exact h.fresh, by rw [htalks, hactive]; exact h.active⟩
  | index hpc htalks hactive =>
    refine h.set hplaced hx hmain hareas htalks ?_ ?_ ?_ (hsame hactive) <;> rintro z ⟨⟩
    · exact ⟨rfl, fun _ => by rw [hpc]; rfl, fun c => h.socket t x c hx⟩
    · exact fun _ => h.fresh t x hx (.inl hpc)
    · exact nofun
  | load hpc htalks hactive =>
    refine h.set hplaced hx hmain hareas htalks ?_ ?_ ?_ (hsame hactive) <;> rintro z ⟨⟩
    · refine ⟨rfl, fun _ => by rw [hpc]; rfl, fun c hc => ?_⟩
      rw [h.fresh t x hx (.inr hpc)] at hc
      exact (Option.some.inj hc).symm
    · exact nofun
    · exact nofun
  | mark hpc htalks hactive =>
    refine h.set hplaced hx hmain hareas htalks ?_ ?_ ?_ fun t' x' _ hx' hwork => ?_
    · rintro z ⟨⟩
      exact ⟨rfl, fun _ => by rw [hpc]; rfl, fun c => h.socket t x c hx⟩
    · rintro z ⟨⟩
      exact nofun
    · rintro z ⟨⟩ -
      rw [hactive, hindex (by simp [hpc]), Function.update_self]
    · rw [hactive]
      by_cases hslot : x'.slot = x.index
      · rw [hslot, Function.update_self]
      · rw [Function.update_of_ne hslot]
        exact h.active t' x' hx' hwork
  | move pc hbefore hafter hconsole hday htalks hactive =>
    refine h.set hplaced hx hmain hareas htalks ?_ ?_ ?_ (hsame hactive) <;> rintro z ⟨⟩
    · exact ⟨rfl, fun _ => TalkPc.unfinished_of_working hbefore, fun c => h.socket t x c hx⟩
    · rintro (hpc | hpc) <;> (change pc = _ at hpc; rw [hpc] at hafter; cases hafter)
    · exact fun _ => by rw [hactive]; exact h.active t x hx hbefore
  | rotate d he hpc hold htalks hactive =>
    have hbefore : x.pc.working := by rw [hpc]; rfl
    refine h.set hplaced hx hmain hareas htalks ?_ ?_ ?_ (hsame hactive) <;> rintro z ⟨⟩
    · exact ⟨rfl, fun _ => TalkPc.unfinished_of_working hbefore, fun c => h.socket t x c hx⟩
    · exact nofun
    · exact fun _ => by rw [hactive]; exact h.active t x hx hbefore
  | release hpc htalks hactive =>
    have hbefore : x.pc.working := by rw [hpc]; rfl
    refine h.set hplaced hx hmain hareas htalks ?_ ?_ ?_ (h.cleared hx hbefore hactive) <;>
      rintro z ⟨⟩
    · exact ⟨rfl, nofun, fun c => h.socket t x c hx⟩
    · exact nofun
    · exact nofun
  | consoleEnd hpc htalks hactive =>
    have hbefore : x.pc.working := by rw [hpc]; rfl
    exact h.set hplaced hx hmain hareas htalks nofun nofun nofun (h.cleared hx hbefore hactive)
  | exit hpc htalks hactive =>
    exact h.set hplaced hx hmain hareas htalks nofun nofun nofun (hsame hactive)

theorem Exclusive.step (h : Exclusive servers s) (hG : AdmitsStarted servers s l)
    (hu : s.step servers l = some u) : Exclusive servers u := by
  have hplaced := h.toPlaced.step hu
  cases steps_of_step hu with
  | newDay d => exact ⟨hplaced, { h.toOneSessionPerSlot with }, h.fresh, h.active⟩
  | accept c => exact h.accept hG
  | count hm =>
    exact ⟨hplaced, ⟨h.threads, fun i a c' hs => h.pending i a c' (by rw [hm]; exact hs), h.socket⟩,
      h.fresh, h.active⟩
  | store hm => exact h.store hm
  | spawnTalk hm => exact h.spawnTalk hm
  | spawnEnqueue hm | spawnEnqueueFails hm =>
    exact ⟨hplaced, ⟨h.threads, nofun, h.socket⟩, h.fresh, h.active⟩
  | @spawnTalkFails slot agent c hm =>
    exact ⟨hplaced, ⟨h.threads, by cases agent <;> nofun, h.socket⟩, h.fresh, h.active⟩
  | talk hx hu => exact h.talk hx hu
  | enqueue hy hu =>
    obtain ⟨hmain, hareas, htalks, hactive, -⟩ := stepEnqueue_frame hu
    exact ⟨hplaced, ⟨htalks ▸ h.threads, by rw [htalks, hmain]; exact h.pending, htalks ▸ h.socket⟩,
      by rw [htalks, hareas]; exact h.fresh, by rw [htalks, hactive]; exact h.active⟩

/-- A run keeps to one session for each slot exactly if no connection is admitted
while a thread of its slot has not yet set the active flag. -/
theorem oneSessionPerSlot_iff (servers : List Text) (d : Day) (ls : List Label) :
    (∀ s, Visits (step servers) (initial d) ls s → OneSessionPerSlot s) ↔
      Along (step servers) (AdmitsStarted servers) (initial d) ls := by
  refine along_iff_forall_visits (fun s h => h.toOneSessionPerSlot) (exclusive_initial servers d)
    (fun s l u h hG hu => h.step hG hu) ?_
  rintro s l u hu h c i a rfl hadm t x hx hstart
  obtain ⟨-, hu⟩ := Option.ite_none_right_eq_some.mp hu
  obtain rfl := Option.some.inj hu
  refine h.pending i a c ?_ t x hx (TalkPc.unfinished_of_starting hstart)
  simp [State.accept, hadm, MainPc.session]

/-- The agent's second connection comes before its first thread has run. -/
def hastyReconnect : List Label :=
  [.accept (agentConn 0), .main, .main, .spawnTalk 0, .spawnEnqueue 0, .accept (agentConn 1)]

/-- Both connections are admitted to the slot, as its flag is not yet set. -/
theorem not_oneSessionPerSlot :
    ¬ ∀ (servers : List Text) (d : Day) (ls : List Label) (s : State),
      Visits (step servers) (initial d) ls s → OneSessionPerSlot s := by
  intro h
  have hrun : (runFrom (step oneServer) (initial newYear) hastyReconnect).map
      (fun s => (s.main, s.talks 0)) =
        some (.accepted 0 true (agentConn 1), some ⟨0, agentConn 0, 0, none, .created⟩) := by
    decide +kernel
  obtain ⟨s, hs, hthreads⟩ := Option.map_eq_some_iff.mp hrun
  obtain ⟨hmain, hx⟩ := Prod.mk.inj hthreads
  have hone := h oneServer newYear hastyReconnect s ⟨hastyReconnect, List.prefix_rfl, hs⟩
  exact hone.pending 0 true (agentConn 1) (by rw [hmain]; rfl) 0 _ hx rfl rfl

end Sessions

end State
end CLib.Server
