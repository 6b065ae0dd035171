import CLib.Printer.Clients

namespace CLib.Printer
open CLib.Base
variable {ι : Type} [Fintype ι] {spool spool' : Spool}
  {accepted printed printed' : List (Job × Text)} {acked : List ℕ} {d d' : Daemon ι} {i : ι}
  {jobid id : ℕ} {jp jp' : Job} {jobs : List Job} {entries : List ℕ} {sent : Text}

theorem Daemon.uses_printer {pc : PrinterPc} (h : pc.job = d.printer.job) (id : ℕ) :
    ({ d with printer := pc } : Daemon ι).uses id = d.uses id := by
  rw [Daemon.uses, Daemon.uses, h]

theorem Daemon.uses_waiting (h : d.printer.job = some jp) (id : ℕ) :
    d.uses id = ({ d with printer := .waiting } : Daemon ι).uses id + if jp.jobid = id then 1 else 0 := by
  rw [Daemon.uses, Daemon.uses, h]
  simp only [PrinterPc.job, Option.map_some, Option.map_none, Option.some.injEq, reduceCtorEq, if_false]
  omega

namespace Serving

theorem job_ne_printer (h : Serving spool accepted printed d) (hjp : d.printer.job = some jp)
    (hjp' : jp' ∈ d.jobs) : jp'.jobid ≠ jp.jobid := by
  intro heq
  have hle := h.uses_le jp.jobid
  have hcount : 0 < (d.jobs.map Job.jobid).count jp.jobid :=
    List.count_pos_iff.mpr (heq ▸ List.mem_map_of_mem hjp')
  rw [Daemon.uses, hjp, Option.map_some, if_pos rfl] at hle
  omega

theorem entry_ne_job (h : Serving spool accepted printed d) (hentry : jobid ∈ d.entries)
    (hjp : jp ∈ d.jobs) : jp.jobid ≠ jobid := by
  rintro rfl
  have hle := h.uses_le jp.jobid
  have hentries := List.count_pos_iff.mpr hentry
  have hjobs : 0 < (d.jobs.map Job.jobid).count jp.jobid :=
    List.count_pos_iff.mpr (List.mem_map_of_mem hjp)
  rw [Daemon.uses] at hle
  omega

theorem entry_ne_printer (h : Serving spool accepted printed d) (hentry : jobid ∈ d.entries)
    (hjp : d.printer.job = some jp) : jp.jobid ≠ jobid := by
  rintro rfl
  have hle := h.uses_le jp.jobid
  have hentries := List.count_pos_iff.mpr hentry
  rw [Daemon.uses, hjp, Option.map_some, if_pos rfl] at hle
  omega

/-- A step that is not a client's: it leaves the clients and their files alone, and drops a job
only when it is printed or canceled. -/
theorem serve (h : Serving spool accepted printed d) (hnext : d'.nextjob = d.nextjob)
    (hclients : d'.clients = d.clients) (hjobno : initRequest spool'.jobno ≤ d.nextjob)
    (hdata : ∀ i id, (d.clients i).jobid = some id → spool'.data id = spool.data id)
    (hreqs : ∀ i id, (d.clients i).jobid = some id → spool'.reqs id = spool.reqs id)
    (hnone : ∀ id, spool'.reqs id ≠ none → spool.reqs id ≠ none)
    (huses : ∀ id, d'.uses id ≤ d.uses id)
    (hjobs : ∀ jp ∈ d'.jobs, spool'.reqs jp.jobid = some (some jp.req))
    (hprinter : d'.printer.Spools spool' printed')
    (hbuilding : d'.build ≠ .readReq → ∀ jobid entries, d'.entries = jobid :: entries →
      ∀ req, spool'.reqs jobid ≠ some (some req)) (hsub : printed ⊆ printed')
    (hcanceled : d.canceled ⊆ d'.canceled)
    (hdrop : ∀ x ∈ accepted, d'.uses x.1.jobid < d.uses x.1.jobid →
      sheet x ∈ printed' ∨ x.1.jobid ∈ d'.canceled) : Serving spool' accepted printed' d' := by
  refine ⟨by rw [hnext]; exact ⟨hjobno, h.next.2⟩, fun id => (huses id).trans (h.uses_le id),
    fun id hpos => ?_, fun id hid => ?_, fun x hx => ?_, fun i => ?_, hjobs, hprinter, hbuilding,
    fun x hx => ?_⟩
  · rw [hnext]
    exact h.uses_lt id (hpos.trans_le (huses id))
  · rw [hnext]
    exact h.reqs_lt id (hnone id hid)
  · rw [hnext]
    exact h.accepted_lt x hx
  · rw [hclients]
    exact (h.clients i).congr (hdata i) (hreqs i) (fun _ hx => hx) fun _ _ hf => hf
  · rcases h.pending x hx with hp | hp | hp
    · exact .inl (hsub hp)
    · by_cases hdropped : d'.uses x.1.jobid < d.uses x.1.jobid
      · exact (hdrop x hx hdropped).imp (fun hp => hp) .inr
      · exact .inr (.inl (hp.trans_le (not_lt.mp hdropped)))
    · exact .inr (.inr (hcanceled hp))

theorem move (h : Serving spool accepted printed d) (hnext : d'.nextjob = d.nextjob)
    (hclients : d'.clients = d.clients) (hcanceled : d'.canceled = d.canceled)
    (huses : ∀ id, d'.uses id = d.uses id) (hjobs : ∀ jp ∈ d'.jobs, spool.reqs jp.jobid = some (some jp.req))
    (hprinter : d'.printer.Spools spool printed')
    (hbuilding : d'.build ≠ .readReq → ∀ jobid entries, d'.entries = jobid :: entries →
      ∀ req, spool.reqs jobid ≠ some (some req)) (hsub : printed ⊆ printed') :
    Serving spool accepted printed' d' :=
  h.serve hnext hclients h.next.1 (fun _ _ _ => rfl) (fun _ _ _ => rfl) (fun _ hid => hid)
    (fun id => (huses id).le) hjobs hprinter hbuilding hsub
    (fun _ hid => hcanceled ▸ hid) fun x _ hlt => absurd (huses x.1.jobid) hlt.ne

end Serving

namespace Inv
variable {s t : State ι} {e : Event}

theorem printing (h : Inv s) (hd : s.daemon = some d) {pc : PrinterPc} (hpc : d.printer = pc) :
    pc.Spools s.spool s.printed := by
  rw [← hpc]
  exact (h.serving d hd).printer

theorem carryOn (h : Inv s) (hd : s.daemon = some d) {pc pc' : PrinterPc} (hpc : d.printer = pc)
    (hjob : pc'.job = pc.job) (hspools : pc'.Spools s.spool s.printed) : Inv (s.goPrinter d pc') := by
  have hserving := h.serving d hd
  refine ⟨h.stored, forall_daemon ?_⟩
  exact hserving.move rfl rfl rfl (Daemon.uses_printer (by rw [hjob, hpc])) hserving.jobs hspools
    hserving.building fun _ hx => hx

theorem take (h : Inv s) (hd : s.daemon = some d) (hpc : d.printer = .waiting)
    (hjobs : d.jobs = jp :: jobs) : Inv (s.goPrinter { d with jobs := jobs } (.update jp)) := by
  have hserving := h.serving d hd
  have huses : ∀ id, ({ d with jobs := jobs, printer := .update jp } : Daemon ι).uses id = d.uses id := by
    intro id
    simp only [Daemon.uses, hpc, hjobs, PrinterPc.job, List.map_cons, List.count_cons, beq_iff_eq,
      Option.map_some, Option.map_none, Option.some.injEq, reduceCtorEq, if_false]
    omega
  refine ⟨h.stored, forall_daemon ?_⟩
  exact hserving.move rfl rfl rfl huses
    (fun jp' hjp' => hserving.jobs jp' (by rw [hjobs]; exact List.mem_cons_of_mem _ hjp'))
    (hserving.jobs jp (by rw [hjobs]; exact List.mem_cons_self ..)) hserving.building fun _ hx => hx

theorem replace (h : Inv s) (hd : s.daemon = some d) (hpc : d.printer = .defer jp) :
    Inv (s.goPrinter { d with jobs := jp :: d.jobs } .waiting) := by
  have hserving := h.serving d hd
  have hspools : s.spool.reqs jp.jobid = some (some jp.req) := h.printing hd hpc
  have huses : ∀ id, ({ d with jobs := jp :: d.jobs, printer := .waiting } : Daemon ι).uses id =
      d.uses id := by
    intro id
    simp only [Daemon.uses, hpc, PrinterPc.job, List.map_cons, List.count_cons, beq_iff_eq,
      Option.map_some, Option.map_none, Option.some.injEq, reduceCtorEq, if_false]
    omega
  refine ⟨h.stored, forall_daemon ?_⟩
  refine hserving.move rfl rfl rfl huses (fun jp' hjp' => ?_) trivial hserving.building fun _ hx => hx
  rcases List.mem_cons.mp hjp' with rfl | hjp'
  · exact hspools
  · exact hserving.jobs jp' hjp'

theorem update (h : Inv s) (hd : s.daemon = some d) (hpc : d.printer = .update jp) :
    Inv ({ s with spool := { s.spool with jobno := updateJobno s.spool.jobno d.nextjob } }.goPrinter d
      (.opening jp)) := by
  have hserving := h.serving d hd
  obtain ⟨hle, hlt⟩ := hserving.next
  have hspools : s.spool.reqs jp.jobid = some (some jp.req) := h.printing hd hpc
  -- the file is not truncated, but the new number is not shorter than the one it overwrites
  have hpos : 1 ≤ d.nextjob ∧ updateJobno s.spool.jobno d.nextjob = percentU d.nextjob := by
    rcases h.stored.jobno with hno | ⟨n, hn, hone, hno⟩
    · rw [hno] at hle ⊢
      exact ⟨hle, updateJobno_nil _⟩
    · rw [hno, initRequest_percentU (by omega)] at hle
      rw [hno]
      exact ⟨hone.trans hle, updateJobno_percentU hle⟩
  have hinit : initRequest (updateJobno s.spool.jobno d.nextjob) = d.nextjob := by
    rw [hpos.2, initRequest_percentU (by omega)]
  have huses : ∀ id, ({ d with printer := .opening jp } : Daemon ι).uses id = d.uses id :=
    Daemon.uses_printer (by rw [hpc]; rfl)
  refine ⟨⟨.inr ⟨d.nextjob, hlt, hpos⟩, h.stored.complete, h.stored.kept, h.stored.genuine, h.stored.nodup,
    h.stored.acked, fun x hx => ?_⟩, forall_daemon ?_⟩
  · dsimp only [State.goPrinter]
    rw [hinit]
    obtain ⟨y, hy, rfl⟩ := h.stored.genuine x hx
    exact hserving.accepted_lt y hy
  · refine hserving.serve rfl rfl hinit.le (fun _ _ _ => rfl) (fun _ _ _ => rfl) (fun _ hid => hid)
      (fun id => (huses id).le) hserving.jobs ⟨hspools, ?_⟩ hserving.building (fun _ hx => hx)
      (fun _ hid => hid) fun x _ hlt => absurd (huses x.1.jobid) hlt.ne
    dsimp only [State.goPrinter]
    rw [hinit]
    apply hserving.uses_lt
    exact Daemon.uses_pos_of_printer (by rw [hpc]; rfl)

theorem cancel (h : Inv s) (hd : s.daemon = some d) (hpc : d.printer = .opening jp) :
    Inv (s.goPrinter { d with canceled := d.canceled ++ [jp.jobid] } .waiting) := by
  have hserving := h.serving d hd
  have huses : ∀ id, d.uses id = ({ d with
      canceled := d.canceled ++ [jp.jobid]
      printer := .waiting } : Daemon ι).uses id + if jp.jobid = id then 1 else 0 :=
    Daemon.uses_waiting (by rw [hpc]; rfl)
  refine ⟨h.stored, forall_daemon ?_⟩
  refine hserving.serve rfl rfl hserving.next.1 (fun _ _ _ => rfl) (fun _ _ _ => rfl) (fun _ hid => hid)
    (fun id => (huses id).symm ▸ Nat.le_add_right ..) hserving.jobs trivial hserving.building
    (fun _ hx => hx) (List.subset_append_left _ _) fun x _ hlt => .inr ?_
  have hu := huses x.1.jobid
  split_ifs at hu with hid
  · rw [← hid]
    exact List.mem_append_right _ (List.mem_singleton_self _)
  · exact absurd hu hlt.ne'

theorem print (h : Inv s) (hd : s.daemon = some d) (hpc : d.printer = .status jp sent) :
    Inv ({ s with printed := s.printed ++ [(jp, sent)] }.goPrinter d (.answer jp)) := by
  have hserving := h.serving d hd
  obtain ⟨hr, hlt, c, hdata, rfl⟩ := h.printing hd hpc
  -- the data file has been sent to its end, and it is what the client has sent
  have hmem : (jp, c) ∈ s.accepted := by
    obtain ⟨c', hc', hcdata⟩ := h.stored.complete _ _ hr
    rcases hcdata with hcdata | ⟨hcdata, -⟩
    · rw [← Option.some.inj (hcdata.symm.trans hdata)]
      exact hc'
    · rw [hcdata] at hdata
      cases hdata
  refine ⟨⟨h.stored.jobno, fun id req hid => ?_, fun x hx => ?_, fun y hy => ?_, h.stored.nodup, h.stored.acked,
    fun y hy => ?_⟩, forall_daemon ?_⟩
  · obtain ⟨c', hc', hcdata⟩ := h.stored.complete id req hid
    exact ⟨c', hc', hcdata.imp (fun hp => hp) fun hp => ⟨hp.1, List.mem_append_left _ hp.2⟩⟩
  · exact (h.stored.kept x hx).imp (List.mem_append_left _) fun hp => hp
  · rcases List.mem_append.mp hy with hy | hy
    · exact h.stored.genuine y hy
    · rw [List.mem_singleton.mp hy]
      exact ⟨_, hmem, rfl⟩
  · rcases List.mem_append.mp hy with hy | hy
    · exact h.stored.below y hy
    · rw [List.mem_singleton.mp hy]
      exact hlt
  · exact hserving.move rfl rfl rfl (Daemon.uses_printer (by rw [hpc]; rfl)) hserving.jobs
      ⟨hr, c, List.mem_append_right _ (List.mem_singleton_self _)⟩ hserving.building
      (List.subset_append_left _ _)

theorem dropData (h : Inv s) (hd : s.daemon = some d) (hpc : d.printer = .unlinkData jp) :
    Inv ({ s with spool := s.spool.setData jp.jobid none }.goPrinter d (.unlinkReq jp)) := by
  have hserving := h.serving d hd
  obtain ⟨hr, c, hc⟩ := h.printing hd hpc
  have hjob : d.printer.job = some jp := by rw [hpc]; rfl
  have hdata : ∀ id, id ≠ jp.jobid → (s.spool.setData jp.jobid none).data id = s.spool.data id :=
    fun id hne => Function.update_of_ne hne ..
  have huses : ∀ id, ({ d with printer := .unlinkReq jp } : Daemon ι).uses id = d.uses id :=
    Daemon.uses_printer hjob.symm
  refine ⟨⟨h.stored.jobno, fun id req hid => ?_, fun x hx => ?_, h.stored.genuine, h.stored.nodup,
    h.stored.acked, h.stored.below⟩, forall_daemon ?_⟩
  · obtain ⟨c', hc', hcdata⟩ := h.stored.complete id req hid
    by_cases hne : id = jp.jobid
    · refine ⟨c', hc', .inr ⟨?_, h.stored.sheet_mem hc' hc hne⟩⟩
      rw [hne]
      exact Function.update_self ..
    · refine ⟨c', hc', ?_⟩
      dsimp only [State.goPrinter]
      rw [hdata id hne]
      exact hcdata
  · by_cases hne : x.1.jobid = jp.jobid
    · exact .inl (h.stored.sheet_mem hx hc hne)
    · dsimp only [State.goPrinter]
      rw [hdata _ hne]
      exact h.stored.kept x hx
  · exact hserving.serve rfl rfl hserving.next.1
      (fun i id hid => hdata id (hserving.printer_ne_client hid hjob).symm) (fun _ _ _ => rfl)
      (fun _ hid => hid) (fun id => (huses id).le) hserving.jobs ⟨hr, c, hc⟩ hserving.building
      (fun _ hx => hx) (fun _ hid => hid) fun x _ hlt => absurd (huses x.1.jobid) hlt.ne

theorem finish (h : Inv s) (hd : s.daemon = some d) (hpc : d.printer = .unlinkReq jp) :
    Inv (s.goPrinter d .waiting) := by
  have hserving := h.serving d hd
  obtain ⟨-, c, hc⟩ := h.printing hd hpc
  have hjob : d.printer.job = some jp := by rw [hpc]; rfl
  have huses := d.uses_waiting hjob
  refine ⟨h.stored, forall_daemon ?_⟩
  refine hserving.serve rfl rfl hserving.next.1 (fun _ _ _ => rfl) (fun _ _ _ => rfl) (fun _ hid => hid)
    (fun id => (huses id).symm ▸ Nat.le_add_right ..) hserving.jobs trivial hserving.building
    (fun _ hx => hx) (fun _ hid => hid) fun x hx hlt => .inl ?_
  have hu := huses x.1.jobid
  split_ifs at hu with hid
  · exact h.stored.sheet_mem hx hc hid.symm
  · exact absurd hu hlt.ne'

theorem dropReq (h : Inv s) (hd : s.daemon = some d) (hpc : d.printer = .unlinkReq jp) :
    Inv ({ s with spool := s.spool.setReq jp.jobid none }.goPrinter d .waiting) := by
  have hserving := h.serving d hd
  obtain ⟨-, c, hc⟩ := h.printing hd hpc
  have hjob : d.printer.job = some jp := by rw [hpc]; rfl
  have hnone : (s.spool.setReq jp.jobid none).reqs jp.jobid = none := Function.update_self ..
  have hreqs : ∀ id, id ≠ jp.jobid → (s.spool.setReq jp.jobid none).reqs id = s.spool.reqs id :=
    fun id hne => Function.update_of_ne hne ..
  have huses := d.uses_waiting hjob
  refine ⟨⟨h.stored.jobno, fun id req hid => ?_, fun x hx => ?_, h.stored.genuine, h.stored.nodup,
    h.stored.acked, h.stored.below⟩, forall_daemon ?_⟩
  · have hne : id ≠ jp.jobid := by
      rintro rfl
      cases hnone.symm.trans hid
    exact h.stored.complete id req ((hreqs id hne).symm.trans hid)
  · by_cases hne : x.1.jobid = jp.jobid
    · exact .inl (h.stored.sheet_mem hx hc hne)
    · dsimp only [State.goPrinter]
      rw [hreqs _ hne]
      exact h.stored.kept x hx
  · refine hserving.serve rfl rfl hserving.next.1 (fun _ _ _ => rfl)
      (fun i id hid => hreqs id (hserving.printer_ne_client hid hjob).symm) (fun id hid heq => hid ?_)
      (fun id => (huses id).symm ▸ Nat.le_add_right ..) (fun jp' hjp' => ?_) trivial
      (fun hb id entries hentries req hid => ?_) (fun _ hx => hx) (fun _ hid => hid) fun x hx hlt => .inl ?_
    · by_cases hne : id = jp.jobid
      · rw [hne]
        exact hnone
      · exact (hreqs id hne).trans heq
    · exact (hreqs _ (hserving.job_ne_printer hjob hjp')).trans (hserving.jobs jp' hjp')
    · by_cases hne : id = jp.jobid
      · rw [hne] at hid
        cases hnone.symm.trans hid
      · exact hserving.building hb id entries hentries req ((hreqs id hne).symm.trans hid)
    · have hu := huses x.1.jobid
      split_ifs at hu with hid
      · exact h.stored.sheet_mem hx hc hid.symm
      · exact absurd hu hlt.ne'

theorem printer (h : Inv s) (hd : s.daemon = some d) (hwhole : ∀ n, e = .copy n → ∀ jp, d.printer ≠ .update jp)
    (ht : s.printer d e = some t) : Inv t := by
  unfold State.printer at ht
  cases hpc : d.printer with
  | waiting =>
    rw [hpc] at ht
    cases e with
    | go =>
      cases hjobs : d.jobs with
      | nil =>
        simp only [hjobs] at ht
        cases ht
      | cons jp jobs =>
        simp only [hjobs] at ht
        obtain rfl := Option.some.inj ht
        exact h.take hd hpc hjobs
    | _ => cases ht
  | update jp =>
    rw [hpc] at ht
    cases e with
    | go =>
      obtain rfl := Option.some.inj ht
      exact h.update hd hpc
    | copy nw => exact absurd hpc (hwhole nw rfl jp)
    | _ => cases ht
  | opening jp =>
    obtain ⟨hr, hlt⟩ := h.printing hd hpc
    rw [hpc] at ht
    cases e with
    | go =>
      obtain ⟨hdata, ht⟩ := Option.ite_none_right_eq_some.mp ht
      obtain rfl := Option.some.inj ht
      exact h.carryOn hd hpc rfl ⟨hr, hlt, Option.ne_none_iff_exists'.mp hdata⟩
    | fail =>
      obtain rfl := Option.some.inj ht
      exact h.cancel hd hpc
    | _ => cases ht
  | connecting jp =>
    obtain ⟨hr, hlt, c, hc⟩ := h.printing hd hpc
    rw [hpc] at ht
    cases e with
    | go =>
      obtain rfl := Option.some.inj ht
      exact h.carryOn hd hpc rfl ⟨hr, hlt, c, hc, (List.append_nil _).symm⟩
    | fail =>
      obtain rfl := Option.some.inj ht
      exact h.carryOn hd hpc rfl hr
    | _ => cases ht
  | sending jp off sent =>
    obtain ⟨hr, hlt, c, hc, hsent⟩ := h.printing hd hpc
    rw [hpc] at ht
    cases e with
    | go =>
      simp only [hc] at ht
      obtain ⟨hle, ht⟩ := Option.ite_none_right_eq_some.mp ht
      obtain rfl := Option.some.inj ht
      rw [List.take_of_length_le hle] at hsent
      exact h.carryOn hd hpc rfl ⟨hr, hlt, c, hc, hsent⟩
    | copy nr =>
      simp only [hc] at ht
      obtain ⟨-, ht⟩ := Option.ite_none_left_eq_some.mp ht
      obtain rfl := Option.some.inj ht
      refine h.carryOn hd hpc rfl ⟨hr, hlt, c, hc, ?_⟩
      rw [hsent, List.append_assoc, List.take_add, List.length_take, ← List.take_eq_take_min]
    | fail =>
      obtain rfl := Option.some.inj ht
      exact h.carryOn hd hpc rfl hr
    | _ => cases ht
  | status jp sent =>
    obtain ⟨hr, -, -⟩ := h.printing hd hpc
    rw [hpc] at ht
    cases e with
    | go =>
      obtain rfl := Option.some.inj ht
      exact h.print hd hpc
    | fail =>
      obtain rfl := Option.some.inj ht
      exact h.carryOn hd hpc rfl hr
    | _ => cases ht
  | answer jp =>
    have hprinted := h.printing hd hpc
    rw [hpc] at ht
    cases e with
    | go =>
      obtain rfl := Option.some.inj ht
      exact h.carryOn hd hpc rfl hprinted
    | fail =>
      obtain rfl := Option.some.inj ht
      exact h.carryOn hd hpc rfl hprinted.1
    | _ => cases ht
  | unlinkData jp =>
    have hprinted := h.printing hd hpc
    rw [hpc] at ht
    cases e with
    | go =>
      obtain rfl := Option.some.inj ht
      exact h.dropData hd hpc
    | fail =>
      obtain rfl := Option.some.inj ht
      exact h.carryOn hd hpc rfl hprinted
    | _ => cases ht
  | unlinkReq jp =>
    rw [hpc] at ht
    cases e with
    | go =>
      obtain rfl := Option.some.inj ht
      exact h.dropReq hd hpc
    | fail =>
      obtain rfl := Option.some.inj ht
      exact h.finish hd hpc
    | _ => cases ht
  | defer jp =>
    rw [hpc] at ht
    cases e with
    | go =>
      obtain rfl := Option.some.inj ht
      exact h.replace hd hpc
    | _ => cases ht

end Inv
end CLib.Printer
