import CLib.Printer.Printing

namespace CLib.Printer
open CLib.Base
variable {ι : Type} [Fintype ι] {s t : State ι} {d : Daemon ι} {e : Event} {entries : List ℕ} {jobid : ℕ}

namespace Inv

/-- A step of the start touches only the files of names in the directory, and leaves out only those
that are printed or canceled. -/
theorem scan (h : Inv s) (hd : s.daemon = some d) {skipped : List ℕ} (hentries : d.entries = skipped ++ entries)
    {spool' : Spool} {canceled : List ℕ} {pc : BuildPc} (hstored : Stored spool' s.accepted s.printed s.acked)
    (hjobno : spool'.jobno = s.spool.jobno) (hdata : ∀ id ∉ d.entries, spool'.data id = s.spool.data id)
    (hreqs : ∀ id ∉ d.entries, spool'.reqs id = s.spool.reqs id)
    (hnone : ∀ id, spool'.reqs id ≠ none → s.spool.reqs id ≠ none)
    (hbuilding : pc ≠ .readReq → ∀ jobid rest, entries = jobid :: rest →
      ∀ req, spool'.reqs jobid ≠ some (some req)) (hsub : d.canceled ⊆ canceled)
    (hdrop : ∀ x ∈ s.accepted, x.1.jobid ∈ skipped → sheet x ∈ s.printed ∨ x.1.jobid ∈ canceled) :
    Inv { s with
      spool := spool'
      daemon := some { d with build := pc, entries := entries, canceled := canceled } } := by
  have hserving := h.serving d hd
  have huses : ∀ id, d.uses id =
      ({ d with build := pc, entries := entries, canceled := canceled } : Daemon ι).uses id +
        skipped.count id := by
    intro id
    simp only [Daemon.uses, hentries, List.count_append]
    omega
  refine ⟨hstored, forall_daemon ?_⟩
  refine hserving.serve rfl rfl (by rw [hjobno]; exact hserving.next.1)
    (fun i id hid => hdata id fun hentry => hserving.entry_ne_client hid hentry rfl)
    (fun i id hid => hreqs id fun hentry => hserving.entry_ne_client hid hentry rfl) hnone
    (fun id => (huses id).symm ▸ Nat.le_add_right ..) (fun jp hjp => ?_) ?_ hbuilding (fun _ hx => hx) hsub
    fun x hx hlt => hdrop x hx ?_
  · exact (hreqs _ fun hentry => hserving.entry_ne_job hentry hjp rfl).trans (hserving.jobs jp hjp)
  · exact hserving.printer.congr (fun jp hjp => hdata _ fun hentry => hserving.entry_ne_printer hentry hjp rfl)
      (fun jp hjp => hreqs _ fun hentry => hserving.entry_ne_printer hentry hjp rfl) hjobno fun _ hx => hx
  · have hu := huses x.1.jobid
    exact List.count_pos_iff.mp (by omega)

theorem enqueue (h : Inv s) (hd : s.daemon = some d) (hbuild : d.build = .readReq)
    (hentries : d.entries = jobid :: entries) {req : PrintReq} (hreq : s.spool.reqs jobid = some (some req)) :
    Inv { s with daemon := some { d with entries := entries, jobs := d.jobs ++ [⟨jobid, req⟩] } } := by
  have hserving := h.serving d hd
  have huses : ∀ id, ({ d with entries := entries, jobs := d.jobs ++ [⟨jobid, req⟩] } : Daemon ι).uses id =
      d.uses id := by
    intro id
    simp only [Daemon.uses, hentries, List.count_cons, List.map_append, List.map_singleton,
      List.count_append, List.count_nil, beq_iff_eq]
    omega
  refine ⟨h.stored, forall_daemon ?_⟩
  refine hserving.move rfl rfl rfl huses (fun jp hjp => ?_) hserving.printer
    (fun hb => absurd hbuild hb) fun _ hx => hx
  rcases List.mem_append.mp hjp with hjp | hjp
  · exact hserving.jobs jp hjp
  · rw [List.mem_singleton.mp hjp]
    exact hreq

theorem printed_of_entry (h : Inv s) (hreq : ∀ req, s.spool.reqs jobid ≠ some (some req)) {canceled : List ℕ} :
    ∀ x ∈ s.accepted, x.1.jobid ∈ [jobid] → sheet x ∈ s.printed ∨ x.1.jobid ∈ canceled := by
  intro x hx hid
  left
  apply h.stored.printed_of_reqs hx
  rw [List.mem_singleton.mp hid]
  exact hreq _

/-- The request is not complete: the daemon has died in the middle of it, so no client counts on it. -/
theorem discard (h : Inv s) (hd : s.daemon = some d) (hentries : d.entries = jobid :: entries)
    (hreq : ∀ req, s.spool.reqs jobid ≠ some (some req)) {pc : BuildPc} :
    Inv { s with daemon := some { d with build := pc } } := by
  refine h.scan hd (List.nil_append _).symm h.stored rfl (fun _ _ => rfl) (fun _ _ => rfl) (fun _ hid => hid)
    (fun _ id rest hcons => ?_) (fun _ hid => hid) fun _ _ hid => absurd hid List.not_mem_nil
  rw [hentries] at hcons
  rw [← (List.cons.inj hcons).1]
  exact hreq

theorem advance (h : Inv s) (hd : s.daemon = some d) {skipped : List ℕ} (hentries : d.entries = skipped ++ entries)
    {canceled : List ℕ} (hsub : d.canceled ⊆ canceled)
    (hdrop : ∀ x ∈ s.accepted, x.1.jobid ∈ skipped → sheet x ∈ s.printed ∨ x.1.jobid ∈ canceled) :
    Inv { s with daemon := some { d with build := .readReq, entries := entries, canceled := canceled } } :=
  h.scan hd hentries h.stored rfl (fun _ _ => rfl) (fun _ _ => rfl) (fun _ hid => hid)
    (fun hne => absurd rfl hne) hsub hdrop

theorem discardReq (h : Inv s) (hd : s.daemon = some d) (hentries : d.entries = jobid :: entries)
    (hreq : ∀ req, s.spool.reqs jobid ≠ some (some req)) :
    Inv { s with
      spool := s.spool.setReq jobid none
      daemon := some { d with build := .unlinkData } } := by
  have hgone : (s.spool.setReq jobid none).reqs jobid = none := Function.update_self ..
  have hnew : ∀ req, (s.spool.setReq jobid none).reqs jobid ≠ some (some req) := by
    rw [hgone]
    exact nofun
  have hreqs : ∀ id, id ≠ jobid → (s.spool.setReq jobid none).reqs id = s.spool.reqs id :=
    fun id hne => Function.update_of_ne hne ..
  have hentry : jobid ∈ d.entries := by
    rw [hentries]
    exact List.mem_cons_self ..
  refine h.scan hd (List.nil_append _).symm (h.stored.congr rfl (fun _ _ => rfl) hreqs hreq hnew) rfl
    (fun _ _ => rfl) (fun id hid => hreqs id fun heq => hid (heq ▸ hentry)) (fun id hid => ?_)
    (fun _ id rest hcons => ?_) (fun _ hid => hid) fun _ _ hid => absurd hid List.not_mem_nil
  · have hne : id ≠ jobid := by
      rintro rfl
      exact hid hgone
    rwa [hreqs id hne] at hid
  · rw [hentries] at hcons
    rw [← (List.cons.inj hcons).1]
    exact hnew

theorem discardData (h : Inv s) (hd : s.daemon = some d) (hentries : d.entries = jobid :: entries)
    (hreq : ∀ req, s.spool.reqs jobid ≠ some (some req)) :
    Inv { s with
      spool := s.spool.setData jobid none
      daemon := some { d with build := .readReq, entries := entries } } := by
  have hdata : ∀ id, id ≠ jobid → (s.spool.setData jobid none).data id = s.spool.data id :=
    fun id hne => Function.update_of_ne hne ..
  have hentry : jobid ∈ d.entries := by
    rw [hentries]
    exact List.mem_cons_self ..
  exact h.scan hd (hentries.trans List.singleton_append.symm) (h.stored.congr rfl hdata (fun _ _ => rfl) hreq hreq) rfl
    (fun id hid => hdata id fun heq => hid (heq ▸ hentry)) (fun _ _ => rfl) (fun _ hid => hid)
    (fun hne => absurd rfl hne) (fun _ hid => hid) (h.printed_of_entry hreq)

theorem build (h : Inv s) (hd : s.daemon = some d)
    (hread : e = .badRead → ∀ jobid entries, d.entries = jobid :: entries →
      ∀ req, s.spool.reqs jobid ≠ some (some req)) (ht : s.build d e = some t) : Inv t := by
  have hserving := h.serving d hd
  obtain ⟨nextjob, jobs, pc, build, entries, clients, canceled⟩ := d
  cases build with
  | readReq =>
    cases entries with
    | nil =>
      cases e with
      | lastEntry =>
        obtain rfl := Option.some.inj ht
        exact h.advance hd (List.nil_append _).symm (List.subset_append_left _ _)
          fun _ _ hid => absurd hid List.not_mem_nil
      | _ => cases ht
    | cons jobid entries =>
      cases e with
      | go =>
        simp only [State.build] at ht
        cases hreq : s.spool.reqs jobid with
        | none =>
          rw [hreq] at ht
          cases ht
        | some req =>
          rw [hreq] at ht
          cases req with
          | none =>
            obtain rfl := Option.some.inj ht
            exact h.discard hd rfl (by rw [hreq]; exact nofun)
          | some req =>
            obtain rfl := Option.some.inj ht
            exact h.enqueue hd rfl rfl hreq
      | fail =>
        obtain rfl := Option.some.inj ht
        exact h.advance hd List.singleton_append.symm (List.subset_append_left _ _)
          fun x _ hid => .inr (List.mem_append_right _ hid)
      | badRead =>
        obtain ⟨-, ht⟩ := Option.ite_none_right_eq_some.mp ht
        obtain rfl := Option.some.inj ht
        exact h.discard hd rfl (hread rfl jobid entries rfl)
      | lastEntry =>
        obtain rfl := Option.some.inj ht
        exact h.advance hd (List.append_nil _).symm (List.subset_append_left _ _)
          fun x _ hid => .inr (List.mem_append_right _ hid)
      | _ => cases ht
  | unlinkReq =>
    cases entries with
    | nil => cases e <;> cases ht
    | cons jobid entries =>
      have hreq := hserving.building (by rintro ⟨⟩) jobid entries rfl
      cases e with
      | go =>
        obtain rfl := Option.some.inj ht
        exact h.discardReq hd rfl hreq
      | fail =>
        obtain rfl := Option.some.inj ht
        exact h.discard hd rfl hreq
      | _ => cases ht
  | unlinkData =>
    cases entries with
    | nil => cases e <;> cases ht
    | cons jobid entries =>
      have hreq := hserving.building (by rintro ⟨⟩) jobid entries rfl
      cases e with
      | go =>
        obtain rfl := Option.some.inj ht
        exact h.discardData hd rfl hreq
      | fail =>
        obtain rfl := Option.some.inj ht
        exact h.advance hd List.singleton_append.symm (fun _ hid => hid) (h.printed_of_entry hreq)
      | _ => cases ht

theorem crash (h : Inv s) : Inv ({ s with daemon := none } : State ι) := ⟨h.stored, nofun⟩

/-- The daemon is started again: what it finds in the directory is all that is not yet printed. -/
theorem restart (h : Inv s) (hnodup : entries.Nodup)
    (hentries : ∀ jobid, jobid ∈ entries ↔ s.spool.reqs jobid ≠ none)
    (hbelow : ∀ jobid ∈ entries, jobid < initRequest s.spool.jobno) :
    Inv ({ s with daemon := some (.started s.spool.jobno entries) } : State ι) := by
  have huses : ∀ id, (Daemon.started s.spool.jobno entries : Daemon ι).uses id = entries.count id := by
    intro id
    have hidle : tally (ClientPc.uses id) (fun _ : ι => .free) = 0 := by
      apply tally_eq_zero
      exact fun _ => ClientPc.uses_of_ne (Option.some_ne_none _).symm
    simp only [Daemon.uses, Daemon.started, hidle, PrinterPc.job, List.map_nil, List.count_nil,
      Option.map_none, reduceCtorEq, if_false]
    omega
  have hlt : initRequest s.spool.jobno < 2 ^ 31 := by
    rcases h.stored.jobno with hno | ⟨n, hn, -, hno⟩
    · rw [hno]
      decide
    · rw [hno, initRequest_percentU (by omega)]
      exact hn
  -- a job that is not printed has its request on the disk, so its name is in the directory
  have hkept : ∀ x ∈ s.accepted, sheet x ∈ s.printed ∨ x.1.jobid ∈ entries := by
    intro x hx
    refine (h.stored.kept x hx).imp (fun hp => hp) fun hk => (hentries _).mpr ?_
    rw [hk.2]
    exact Option.some_ne_none _
  refine ⟨h.stored, forall_daemon ⟨⟨le_rfl, hlt⟩, fun id => ?_, fun id hpos => ?_, fun id hid => ?_, fun x hx => ?_,
    fun i => trivial, fun jp hjp => ?_, trivial, fun hne => absurd rfl hne, fun x hx => ?_⟩⟩
  · rw [huses]
    exact List.nodup_iff_count_le_one.mp hnodup id
  · rw [huses] at hpos
    exact hbelow id (List.count_pos_iff.mp hpos)
  · exact hbelow id ((hentries id).mpr hid)
  · exact (hkept x hx).elim (h.stored.below _) (hbelow x.1.jobid)
  · cases hjp
  · refine (hkept x hx).imp (fun hp => hp) fun hid => .inl ?_
    rw [huses]
    exact List.count_pos_iff.mpr hid

theorem start : Inv (.start : State ι) := by
  refine ⟨⟨.inl rfl, nofun, ?_, ?_, List.nodup_nil, ?_, ?_⟩, nofun⟩
  all_goals
    intro x hx
    cases hx

variable [DecidableEq ι]

theorem step (h : Inv s) {l : Label ι} (hl : s.Regular l) (ht : s.step l = some t) : Inv t := by
  cases l with
  | restart entries =>
    obtain ⟨-, ht⟩ := Option.ite_none_right_eq_some.mp ht
    obtain rfl := Option.some.inj ht
    obtain ⟨hnodup, hentries, hbelow⟩ := hl
    exact h.restart hnodup hentries hbelow
  | crash =>
    obtain ⟨-, ht⟩ := Option.ite_none_right_eq_some.mp ht
    obtain rfl := Option.some.inj ht
    exact h.crash
  | build e =>
    obtain ⟨d, hd, ht⟩ := Option.bind_eq_some_iff.mp ht
    refine h.build hd ?_ ht
    rintro rfl
    exact fun jobid entries hentries => hl d jobid entries hd hentries
  | client i e =>
    obtain ⟨d, hd, ht⟩ := Option.bind_eq_some_iff.mp ht
    refine h.client hd ?_ ht
    rintro rfl
    exact hl d hd
  | printer e =>
    obtain ⟨d, hd, ht⟩ := Option.bind_eq_some_iff.mp ht
    refine h.printer hd ?_ ht
    rintro n rfl
    exact fun jp => hl d jp hd

end Inv

namespace State
variable [DecidableEq ι] {ls : List (Label ι)}

theorem inv_of_visits (hG : Along step Regular (start : State ι) ls) (hs : Visits step start ls s) : Inv s :=
  hG.invariant .start (fun _ _ _ h hl ht => h.step hl ht) s hs

/-- What is printed is what was read from a client, and a text has one byte before it. A job that is
accepted is printed or its two files are there, complete, and no other job has its number; it is
accepted before its client is told the number. While the daemon runs, a job that is not printed is
somewhere in it, if its name could be read and its files could be opened. -/
structure Durable (s : State ι) : Prop where
  genuine : ∀ y ∈ s.printed, ∃ x ∈ s.accepted, sheet x = y
  kept : ∀ x ∈ s.accepted, sheet x ∈ s.printed ∨
    s.spool.data x.1.jobid = some x.2 ∧ s.spool.reqs x.1.jobid = some (some x.1.req)
  nodup : (s.accepted.map fun x => x.1.jobid).Nodup
  acked : ∀ jobid ∈ s.acked, ∃ x ∈ s.accepted, x.1.jobid = jobid
  pending : ∀ d, s.daemon = some d → ∀ x ∈ s.accepted,
    sheet x ∈ s.printed ∨ 0 < d.uses x.1.jobid ∨ x.1.jobid ∈ d.canceled

/-- So it is whatever else fails and whenever the daemon dies and is started again. -/
theorem spool_durable (hG : Along step Regular (start : State ι) ls) (hs : Visits step start ls s) :
    Durable s := by
  have h := inv_of_visits hG hs
  exact ⟨h.stored.genuine, h.stored.kept, h.stored.nodup, h.stored.acked, fun d hd =>
    (h.serving d hd).pending⟩

/-- A client sends a job, and the printer thread takes it; then the daemon dies. -/
def oneJob : List (Label Unit) :=
  [.restart [], .client () .go, .client () (.header ⟨2, 0, ['u'], ['j']⟩), .client () .go, .client () .go,
    .client () (.chunk ['h', 'i'] []), .client () .go, .client () .go, .client () .go, .client () .go,
    .client () .go, .printer .go, .printer .go, .crash]

/-- The next daemon prints it. -/
def printedLater : List (Label Unit) :=
  [.restart [1], .build .go, .printer .go, .printer .go, .printer .go, .printer .go, .printer (.copy 2),
    .printer .go, .printer .go, .printer .go, .printer .go, .printer .go]

def interrupted : State Unit := (runFrom step start oneJob).get (by decide)

def afterwards : State Unit := (runFrom step start (oneJob ++ printedLater)).get (by decide)

/-- The two conditions on a run, as far as they can be computed. -/
def allows (s : State ι) : Label ι → Bool
  | .restart _ | .build .badRead => false
  | .crash | .printer .fail => s.daemon.all fun d => d.printer.finishing = none
  | .printer (.copy _) => s.daemon.all fun d => d.printer.job.all fun jp => d.printer ≠ .update jp
  | .client _ .go => s.daemon.all fun d => d.nextjob + 1 < 2 ^ 31
  | _ => true

omit [Fintype ι] in
theorem along_of_allows (h : Along step (fun s l => allows s l = true) s ls) :
    Along step (fun s l => s.Regular l ∧ s.Finishes l) s ls := by
  intro t l ht
  have hl := h t l ht
  cases l with
  | restart entries => cases hl
  | crash =>
    refine ⟨trivial, fun d hd => ?_⟩
    rw [allows, hd, Option.all_some] at hl
    exact of_decide_eq_true hl
  | build e =>
    cases e with
    | badRead => cases hl
    | _ => exact ⟨trivial, trivial⟩
  | client i e =>
    cases e with
    | go =>
      refine ⟨fun d hd => ?_, trivial⟩
      rw [allows, hd, Option.all_some] at hl
      exact of_decide_eq_true hl
    | _ => exact ⟨trivial, trivial⟩
  | printer e =>
    cases e with
    | fail =>
      refine ⟨trivial, fun d hd => ?_⟩
      rw [allows, hd, Option.all_some] at hl
      exact of_decide_eq_true hl
    | copy nr =>
      refine ⟨fun d jp hd hpc => ?_, trivial⟩
      rw [allows, hd, Option.all_some, hpc, PrinterPc.job, Option.all_some] at hl
      exact of_decide_eq_true hl rfl
    | _ => exact ⟨trivial, trivial⟩

theorem reqs_interrupted (jobid : ℕ) : interrupted.spool.reqs jobid =
    if jobid = 1 then some (some ⟨2, 1, ['u'], ['j']⟩) else none := by
  change (((⟨fun _ => none, fun _ => none, []⟩ : Spool).setReq 1 (some none)).setReq 1
    (some (some ⟨2, 1, ['u'], ['j']⟩))).reqs jobid = _
  rw [Spool.setReq_reqs, Spool.setReq_reqs]
  split_ifs <;> rfl

theorem along_printedLater : Along step (fun s l => s.Regular l ∧ s.Finishes l) (start : State Unit)
    (oneJob ++ printedLater) := by
  have hone : runFrom step start oneJob = some interrupted := (Option.some_get _).symm
  have hdown : interrupted.daemon.isNone := by decide
  have hup : interrupted.step (.restart [1]) =
      some { interrupted with daemon := some (.started interrupted.spool.jobno [1]) } := by
    rw [step, if_pos hdown]
  refine along_append hone (along_cons rfl ⟨⟨List.nodup_nil, by simp [start], by simp⟩, trivial⟩
    (along_of_allows (by decide))) (along_cons hup ⟨⟨by decide, fun jobid => ?_, by decide⟩, trivial⟩
    (along_of_allows (by decide)))
  rw [List.mem_singleton, reqs_interrupted]
  split_ifs with hid
  · exact iff_of_true hid (Option.some_ne_none _)
  · exact iff_of_false hid fun hne => hne rfl

theorem spool_durable_printedLater :
    afterwards.acked = [1] ∧ afterwards.printed.map Prod.snd = [['\x08', 'h', 'i']] ∧ Durable afterwards :=
  ⟨by decide, by decide, spool_durable (fun t l ht => (along_printedLater t l ht).1)
    ⟨_, List.prefix_rfl, (Option.some_get _).symm⟩⟩

/-- A number that the job ID file does not yet count is given again after a crash: the data of a
job whose client has been told that it is accepted is lost. -/
theorem overwritten : ∃ s, runFrom step (start : State Unit) (oneJob.take 11 ++
    [.crash, .restart [1], .build .go, .client () .go, .client () (.header ⟨3, 0, ['v'], ['k']⟩),
      .client () .go, .client () .go]) = some s ∧
    s.acked = [1] ∧ s.printed = [] ∧ s.spool.data 1 = some [] :=
  ⟨_, (Option.some_get (by decide)).symm, by decide, by decide, by decide⟩

theorem unread : ∃ s, runFrom step (start : State Unit) (oneJob ++
    [.restart [1], .build .badRead, .build .go, .build .go]) = some s ∧
    s.acked = [1] ∧ s.printed = [] ∧ s.spool.data 1 = none :=
  ⟨_, (Option.some_get (by decide)).symm, by decide, by decide, by decide⟩

end State
end CLib.Printer
