import CLib.Printer.Spool

namespace CLib.Printer
open CLib.Base
variable {ι : Type} [Fintype ι] [DecidableEq ι] {spool spool' : Spool}
  {accepted accepted' printed : List (Job × Text)} {acked : List ℕ} {d : Daemon ι} {i j : ι}
  {pc pc' : ClientPc} {jobid id : ℕ} {jp : Job}

section Uses

theorem ClientPc.uses_of_jobid (h : pc.jobid = some id) : pc.uses id = 1 := by
  rw [uses, if_pos h]

theorem ClientPc.uses_of_ne (h : pc.jobid ≠ some id) : pc.uses id = 0 := by
  rw [uses, if_neg h]

theorem Daemon.uses_goClient (d : Daemon ι) (i : ι) (pc : ClientPc) (id : ℕ) :
    ({ d with clients := Function.update d.clients i pc } : Daemon ι).uses id + (d.clients i).uses id =
      d.uses id + pc.uses id := by
  have hupdate := tally_update (ClientPc.uses id) d.clients i pc
  rw [Daemon.uses, Daemon.uses]
  dsimp only
  omega

omit [DecidableEq ι] in
theorem Daemon.uses_pos_of_client (h : (d.clients i).jobid = some id) : 0 < d.uses id := by
  have hle := le_tally (ClientPc.uses id) d.clients i
  rw [ClientPc.uses_of_jobid h] at hle
  rw [Daemon.uses]
  omega

omit [DecidableEq ι] in
theorem Daemon.uses_pos_of_printer (h : d.printer.job = some jp) : 0 < d.uses jp.jobid := by
  rw [Daemon.uses, h, Option.map_some, if_pos rfl]
  omega

end Uses

namespace Serving

omit [DecidableEq ι] in
theorem client_ne (h : Serving spool accepted printed d) (hi : (d.clients i).jobid = some id) (hij : i ≠ j)
    (hj : (d.clients j).jobid = some jobid) : jobid ≠ id := by
  rintro rfl
  have hle := h.uses_le jobid
  have htwo := add_le_tally (ClientPc.uses jobid) d.clients hij
  rw [ClientPc.uses_of_jobid hi, ClientPc.uses_of_jobid hj] at htwo
  rw [Daemon.uses] at hle
  omega

omit [DecidableEq ι] in
theorem job_ne_client (h : Serving spool accepted printed d) (hi : (d.clients i).jobid = some id)
    (hjp : jp ∈ d.jobs) : jp.jobid ≠ id := by
  rintro rfl
  have hle := h.uses_le jp.jobid
  have hcount : 0 < (d.jobs.map Job.jobid).count jp.jobid :=
    List.count_pos_iff.mpr (List.mem_map_of_mem hjp)
  have htally := le_tally (ClientPc.uses jp.jobid) d.clients i
  rw [ClientPc.uses_of_jobid hi] at htally
  rw [Daemon.uses] at hle
  omega

omit [DecidableEq ι] in
theorem printer_ne_client (h : Serving spool accepted printed d) (hi : (d.clients i).jobid = some id)
    (hjp : d.printer.job = some jp) : jp.jobid ≠ id := by
  rintro rfl
  have hle := h.uses_le jp.jobid
  have htally := le_tally (ClientPc.uses jp.jobid) d.clients i
  rw [ClientPc.uses_of_jobid hi] at htally
  rw [Daemon.uses, hjp, Option.map_some, if_pos rfl] at hle
  omega

omit [DecidableEq ι] in
theorem entry_ne_client (h : Serving spool accepted printed d) (hi : (d.clients i).jobid = some id)
    (hentry : jobid ∈ d.entries) : id ≠ jobid := by
  rintro rfl
  have hle := h.uses_le id
  have hcount := List.count_pos_iff.mpr hentry
  have htally := le_tally (ClientPc.uses id) d.clients i
  rw [ClientPc.uses_of_jobid hi] at htally
  rw [Daemon.uses] at hle
  omega

theorem clients_update (h : Serving spool accepted printed d) (i : ι) (hpc : pc.Spools spool accepted) :
    ∀ k, (Function.update d.clients i pc k).Spools spool accepted := by
  rw [Function.forall_update_iff d.clients fun _ pc => pc.Spools spool accepted]
  exact ⟨hpc, fun k _ => h.clients k⟩

theorem client (h : Serving spool accepted printed d) (hpc : (d.clients i).jobid = some id)
    (hpc' : pc'.jobid = some id ∨ pc'.jobid = none ∧ Fresh accepted' id)
    (hjobno : spool'.jobno = spool.jobno) (hdata : ∀ id', id' ≠ id → spool'.data id' = spool.data id')
    (hreqs : ∀ id', id' ≠ id → spool'.reqs id' = spool.reqs id') (hsub : accepted ⊆ accepted')
    (hnew : ∀ x ∈ accepted', x.1.jobid ≠ id → x ∈ accepted) (hspools : pc'.Spools spool' accepted') :
    Serving spool' accepted' printed { d with clients := Function.update d.clients i pc' } := by
  have huses := d.uses_goClient i pc'
  have hlt : id < d.nextjob := h.uses_lt id (Daemon.uses_pos_of_client hpc)
  have hone := ClientPc.uses_of_jobid hpc
  -- of the other jobs nothing changes, neither their files nor where they are in use
  have hother : ∀ id', id' ≠ id → (d.clients i).uses id' = 0 ∧ pc'.uses id' = 0 := by
    intro id' hne
    refine ⟨ClientPc.uses_of_ne (by rw [hpc]; exact fun heq => hne (Option.some.inj heq).symm), ?_⟩
    apply ClientPc.uses_of_ne
    rcases hpc' with hpc' | ⟨hpc', -⟩ <;> rw [hpc']
    · exact fun heq => hne (Option.some.inj heq).symm
    · exact nofun
  have hsame : ∀ id', id' ≠ id → ({ d with clients := Function.update d.clients i pc' } : Daemon ι).uses id' =
      d.uses id' := by
    intro id' hne
    have hu := huses id'
    rw [(hother id' hne).1, (hother id' hne).2] at hu
    omega
  have hle : pc'.uses id ≤ 1 := by
    rw [ClientPc.uses]
    split_ifs <;> omega
  refine ⟨by rw [hjobno]; exact h.next, fun id' => ?_, fun id' hpos => ?_, fun id' hr => ?_, fun x hx => ?_,
    fun k => ?_, fun jp hjp => ?_, ?_, fun hb jobid entries hentries req => ?_, fun x hx => ?_⟩
  · by_cases hne : id' = id
    · subst hne
      have hu := huses id'
      have := h.uses_le id'
      omega
    · rw [hsame id' hne]
      exact h.uses_le id'
  · by_cases hne : id' = id
    · exact hne ▸ hlt
    · rw [hsame id' hne] at hpos
      exact h.uses_lt id' hpos
  · by_cases hne : id' = id
    · exact hne ▸ hlt
    · rw [hreqs id' hne] at hr
      exact h.reqs_lt id' hr
  · by_cases hne : x.1.jobid = id
    · rw [hne]
      exact hlt
    · exact h.accepted_lt x (hnew x hx hne)
  · by_cases hk : k = i
    · rw [hk]
      dsimp only
      rwa [Function.update_self]
    · dsimp only
      rw [Function.update_of_ne hk]
      have hne : ∀ id', (d.clients k).jobid = some id' → id' ≠ id := fun id' hid' =>
        h.client_ne hpc (Ne.symm hk) hid'
      refine (h.clients k).congr (fun id' hid' => hdata id' (hne id' hid'))
        (fun id' hid' => hreqs id' (hne id' hid')) hsub fun id' hid' hf x hx heq => ?_
      exact hf x (hnew x hx (heq ▸ hne id' hid')) heq
  · rw [hreqs _ (h.job_ne_client hpc hjp)]
    exact h.jobs jp hjp
  · refine h.printer.congr (fun jp hjp => hdata _ (h.printer_ne_client hpc hjp))
      (fun jp hjp => hreqs _ (h.printer_ne_client hpc hjp)) hjobno fun _ hx => hx
  · have hentry : jobid ∈ d.entries := by
      rw [hentries]
      exact List.mem_cons_self ..
    rw [hreqs _ (h.entry_ne_client hpc hentry).symm]
    exact h.building hb jobid entries hentries req
  · by_cases hne : x.1.jobid = id
    · rcases hpc' with hpc' | ⟨-, hfresh⟩
      · refine .inr (.inl ?_)
        rw [hne]
        have hu := huses id
        have hpos := Daemon.uses_pos_of_client hpc
        have hone' := ClientPc.uses_of_jobid hpc'
        omega
      · exact absurd hne (hfresh x hx)
    · rw [hsame _ hne]
      exact h.pending x (hnew x hx hne)

end Serving

/-- What holds in every state that a run comes to. -/
structure Inv (s : State ι) : Prop where
  stored : Stored s.spool s.accepted s.printed s.acked
  serving : ∀ d, s.daemon = some d → Serving s.spool s.accepted s.printed d

namespace Inv
variable {s t : State ι} {e : Event}

omit [Fintype ι] [DecidableEq ι] in
theorem forall_daemon [Fintype ι] (h : Serving spool accepted printed d) :
    ∀ d', some d = some d' → Serving spool accepted printed d' := by
  rintro d' ⟨⟩
  exact h

omit [DecidableEq ι] in
theorem spools (h : Inv s) (hd : s.daemon = some d) (hpc : d.clients i = pc) :
    pc.Spools s.spool s.accepted := by
  rw [← hpc]
  exact (h.serving d hd).clients i

theorem idle (h : Inv s) (hd : s.daemon = some d) (hpc : (d.clients i).jobid = none)
    (hpc' : pc'.jobid = none) : Inv (s.goClient d i pc') := by
  have hserving := h.serving d hd
  have huses : ∀ id, ({ d with clients := Function.update d.clients i pc' } : Daemon ι).uses id =
      d.uses id := by
    intro id
    have hu := d.uses_goClient i pc' id
    rw [ClientPc.uses_of_ne (by rw [hpc]; exact nofun), ClientPc.uses_of_ne (by rw [hpc']; exact nofun)] at hu
    omega
  have hspools : pc'.Spools s.spool s.accepted := by
    cases pc' <;> first | exact trivial | cases hpc'
  refine ⟨h.stored, forall_daemon ⟨hserving.next, fun id => ?_, fun id hpos => ?_, hserving.reqs_lt,
    hserving.accepted_lt, hserving.clients_update i hspools, hserving.jobs, hserving.printer,
    hserving.building, fun x hx => ?_⟩⟩
  · rw [huses]
    exact hserving.uses_le id
  · rw [huses] at hpos
    exact hserving.uses_lt id hpos
  · rw [huses]
    exact hserving.pending x hx

theorem newJob (h : Inv s) (hd : s.daemon = some d) {req : PrintReq} (hpc : d.clients i = .newJob req)
    (hwrap : d.nextjob + 1 < 2 ^ 31) :
    Inv (s.goClient { d with nextjob := getNewjobno d.nextjob } i (.creatData req d.nextjob)) := by
  have hserving := h.serving d hd
  have hnext : getNewjobno d.nextjob = d.nextjob + 1 := if_pos hwrap
  -- nothing in the daemon or on the disk has the next number
  have hunused : d.uses d.nextjob = 0 := by
    by_contra hne
    exact lt_irrefl _ (hserving.uses_lt _ (Nat.pos_of_ne_zero hne))
  have hreqs : s.spool.reqs d.nextjob = none := by
    by_contra hne
    exact lt_irrefl _ (hserving.reqs_lt _ hne)
  have hfresh : Fresh s.accepted d.nextjob := fun x hx heq => by
    have hlt := hserving.accepted_lt x hx
    omega
  have huses : ∀ id, ({ d with
        nextjob := d.nextjob + 1
        clients := Function.update d.clients i (.creatData req d.nextjob) } : Daemon ι).uses id =
      d.uses id + if d.nextjob = id then 1 else 0 := by
    intro id
    have hu := d.uses_goClient i (.creatData req d.nextjob) id
    have hold : ClientPc.uses id (.newJob req) = 0 := ClientPc.uses_of_ne nofun
    rw [hpc, hold] at hu
    have hnew : ClientPc.uses id (.creatData req d.nextjob) = if d.nextjob = id then 1 else 0 := by
      simp only [ClientPc.uses, ClientPc.jobid, Option.some.injEq]
    rw [← hnew]
    exact hu
  obtain ⟨hle, -⟩ := hserving.next
  rw [hnext]
  refine ⟨h.stored, forall_daemon ⟨⟨hle.trans (Nat.le_succ _), hwrap⟩, fun id => ?_, fun id hpos => ?_,
    fun id hid => (hserving.reqs_lt id hid).trans (Nat.lt_succ_self _),
    fun x hx => (hserving.accepted_lt x hx).trans (Nat.lt_succ_self _),
    hserving.clients_update i ⟨hreqs, hfresh⟩, hserving.jobs, hserving.printer, hserving.building,
    fun x hx => ?_⟩⟩
  · rw [huses]
    have := hserving.uses_le id
    split_ifs with hid
    · rw [← hid]
      omega
    · omega
  · rw [huses] at hpos
    dsimp only
    split_ifs at hpos with hid
    · omega
    · have := hserving.uses_lt id (by omega)
      omega
  · rw [huses]
    rcases hserving.pending x hx with hp | hp | hp
    · exact .inl hp
    · exact .inr (.inl (by omega))
    · exact .inr (.inr hp)

/-- A client thread does something to the files of its job, which is not accepted. -/
theorem unsent (h : Inv s) (hd : s.daemon = some d) (hpc : d.clients i = pc) (hjob : pc.jobid = some id)
    (hpc' : pc'.jobid = some id ∨ pc'.jobid = none) (hfresh : Fresh s.accepted id)
    (hjobno : spool'.jobno = s.spool.jobno)
    (hdata : ∀ id', id' ≠ id → spool'.data id' = s.spool.data id')
    (hreqs : ∀ id', id' ≠ id → spool'.reqs id' = s.spool.reqs id')
    (hold : ∀ req, s.spool.reqs id ≠ some (some req)) (hnew : ∀ req, spool'.reqs id ≠ some (some req))
    (hspools : pc'.Spools spool' s.accepted) : Inv ({ s with spool := spool' }.goClient d i pc') := by
  refine ⟨h.stored.congr hjobno hdata hreqs hold hnew, forall_daemon ?_⟩
  exact (h.serving d hd).client (hpc ▸ hjob) (hpc'.imp (fun hp => hp) fun hp => ⟨hp, hfresh⟩) hjobno hdata hreqs
    (fun _ hx => hx) (fun _ hx _ => hx) hspools

/-- The same step on the disk as it is. -/
theorem carryOnUnsent (h : Inv s) (hd : s.daemon = some d) (hpc : d.clients i = pc) (hjob : pc.jobid = some id)
    (hpc' : pc'.jobid = some id ∨ pc'.jobid = none) (hfresh : Fresh s.accepted id)
    (hreq : ∀ req, s.spool.reqs id ≠ some (some req)) (hspools : pc'.Spools s.spool s.accepted) :
    Inv (s.goClient d i pc') :=
  h.unsent hd hpc hjob hpc' hfresh rfl (fun _ _ => rfl) (fun _ _ => rfl) hreq hreq hspools

theorem writeData (h : Inv s) (hd : s.daemon = some d) (hpc : d.clients i = pc) (hjob : pc.jobid = some id)
    (hpc' : pc'.jobid = some id ∨ pc'.jobid = none) (hfresh : Fresh s.accepted id)
    (hreq : ∀ req, s.spool.reqs id ≠ some (some req)) {v : Option Text}
    (hspools : pc'.Spools (s.spool.setData id v) s.accepted) :
    Inv ({ s with spool := s.spool.setData id v }.goClient d i pc') :=
  h.unsent hd hpc hjob hpc' hfresh rfl (fun id' hne => Function.update_of_ne hne ..) (fun _ _ => rfl)
    hreq hreq hspools

theorem writeReq (h : Inv s) (hd : s.daemon = some d) (hpc : d.clients i = pc) (hjob : pc.jobid = some id)
    (hpc' : pc'.jobid = some id) (hfresh : Fresh s.accepted id)
    (hreq : ∀ req, s.spool.reqs id ≠ some (some req)) {v : Option (Option PrintReq)}
    (hv : ∀ req, v ≠ some (some req)) (hspools : pc'.Spools (s.spool.setReq id v) s.accepted) :
    Inv ({ s with spool := s.spool.setReq id v }.goClient d i pc') := by
  have hnew : (s.spool.setReq id v).reqs id = v := Function.update_self ..
  exact h.unsent hd hpc hjob (.inl hpc') hfresh rfl (fun _ _ => rfl)
    (fun id' hne => Function.update_of_ne hne ..) hreq (by rw [hnew]; exact hv) hspools

theorem accept (h : Inv s) (hd : s.daemon = some d) {req : PrintReq} {got : Text}
    (hpc : d.clients i = .writeReq req id got) :
    Inv ({ s with
      spool := s.spool.setReq id (some (some req))
      accepted := s.accepted ++ [((⟨id, req⟩ : Job), got)] }.goClient d i (.respond req id got)) := by
  have hserving := h.serving d hd
  obtain ⟨hr, hdata, hfresh⟩ := h.spools hd hpc
  have hmem : ((⟨id, req⟩ : Job), got) ∈ s.accepted ++ [((⟨id, req⟩ : Job), got)] :=
    List.mem_append_right _ (List.mem_singleton_self _)
  have hreq : (s.spool.setReq id (some (some req))).reqs id = some (some req) := Function.update_self ..
  have hreqs : ∀ id', id' ≠ id → (s.spool.setReq id (some (some req))).reqs id' = s.spool.reqs id' :=
    fun id' hne => Function.update_of_ne hne ..
  refine ⟨⟨h.stored.jobno, fun id' req' hr' => ?_, fun x hx => ?_, fun x hx => ?_, ?_, fun id' hid => ?_,
    h.stored.below⟩, forall_daemon ?_⟩
  · by_cases hne : id' = id
    · subst hne
      obtain rfl : req' = req := Option.some.inj (Option.some.inj (hr'.symm.trans hreq))
      exact ⟨got, hmem, .inl hdata⟩
    · obtain ⟨c, hc, hcdata⟩ := h.stored.complete id' req' ((hreqs id' hne).symm.trans hr')
      exact ⟨c, List.mem_append_left _ hc, hcdata⟩
  · rcases List.mem_append.mp hx with hx | hx
    · refine (h.stored.kept x hx).imp (fun hp => hp) fun hk => ⟨hk.1, ?_⟩
      exact (hreqs _ (hfresh x hx)).trans hk.2
    · obtain rfl := List.mem_singleton.mp hx
      exact .inr ⟨hdata, hreq⟩
  · obtain ⟨y, hy, rfl⟩ := h.stored.genuine x hx
    exact ⟨y, List.mem_append_left _ hy, rfl⟩
  · dsimp only [State.goClient]
    rw [List.map_append, List.nodup_append]
    refine ⟨h.stored.nodup, List.nodup_singleton _, fun a ha b hb => ?_⟩
    obtain ⟨x, hx, rfl⟩ := List.mem_map.mp ha
    rw [List.mem_singleton.mp hb]
    exact hfresh x hx
  · obtain ⟨x, hx, hxid⟩ := h.stored.acked id' hid
    exact ⟨x, List.mem_append_left _ hx, hxid⟩
  · refine hserving.client (by rw [hpc]; rfl) (.inl rfl) rfl (fun _ _ => rfl) hreqs
      (List.subset_append_left _ _) (fun x hx hne => ?_) ⟨hreq, hmem⟩
    refine (List.mem_append.mp hx).resolve_right fun hx => hne ?_
    rw [List.mem_singleton.mp hx]

/-- The client is told its job number, unless the connection fails; the job goes on either way. -/
theorem respond (h : Inv s) (hd : s.daemon = some d) {req : PrintReq} {got : Text}
    (hpc : d.clients i = .respond req id got) {acked : List ℕ} (hacked : acked ⊆ s.acked ++ [id]) :
    Inv ({ s with acked := acked }.goClient d i (.addJob req id got)) := by
  have hserving := h.serving d hd
  obtain ⟨hr, hmem⟩ := h.spools hd hpc
  refine ⟨⟨h.stored.jobno, h.stored.complete, h.stored.kept, h.stored.genuine, h.stored.nodup,
    fun id' hid => ?_, h.stored.below⟩, forall_daemon ?_⟩
  · rcases List.mem_append.mp (hacked hid) with hid | hid
    · exact h.stored.acked id' hid
    · rw [List.mem_singleton.mp hid]
      exact ⟨_, hmem, rfl⟩
  · exact hserving.client (by rw [hpc]; rfl) (.inl rfl) rfl (fun _ _ => rfl) (fun _ _ => rfl)
      (fun _ hx => hx) (fun _ hx _ => hx) ⟨hr, hmem⟩

theorem addJob (h : Inv s) (hd : s.daemon = some d) {req : PrintReq} {got : Text}
    (hpc : d.clients i = .addJob req id got) :
    Inv (s.goClient { d with jobs := d.jobs ++ [⟨id, req⟩] } i .free) := by
  have hserving := h.serving d hd
  obtain ⟨hr, -⟩ := h.spools hd hpc
  have huses : ∀ id', ({ d with
        jobs := d.jobs ++ [⟨id, req⟩]
        clients := Function.update d.clients i .free } : Daemon ι).uses id' = d.uses id' := by
    intro id'
    have hu := d.uses_goClient i .free id'
    have hnew : ClientPc.uses id' .free = 0 := ClientPc.uses_of_ne nofun
    have hold : (d.clients i).uses id' = if id = id' then 1 else 0 := by
      rw [hpc]
      simp only [ClientPc.uses, ClientPc.jobid, Option.some.injEq]
    rw [hnew, hold] at hu
    rw [← Nat.add_zero (d.uses id'), ← hu]
    simp only [Daemon.uses, List.map_append, List.map_singleton, List.count_append, List.count_singleton,
      beq_iff_eq]
    omega
  refine ⟨h.stored, forall_daemon ⟨hserving.next, fun id' => ?_, fun id' hpos => ?_, hserving.reqs_lt,
    hserving.accepted_lt, hserving.clients_update i trivial, fun jp hjp => ?_, hserving.printer,
    hserving.building, fun x hx => ?_⟩⟩
  · rw [huses]
    exact hserving.uses_le id'
  · rw [huses] at hpos
    exact hserving.uses_lt id' hpos
  · rcases List.mem_append.mp hjp with hjp | hjp
    · exact hserving.jobs jp hjp
    · rw [List.mem_singleton.mp hjp]
      exact hr
  · rw [huses]
    exact hserving.pending x hx

theorem client (h : Inv s) (hd : s.daemon = some d) (hwrap : e = .go → d.nextjob + 1 < 2 ^ 31)
    (ht : s.client d i e = some t) : Inv t := by
  unfold State.client at ht
  cases hpc : d.clients i with
  | free =>
    rw [hpc] at ht
    cases e with
    | go =>
      obtain ⟨-, ht⟩ := Option.ite_none_right_eq_some.mp ht
      obtain rfl := Option.some.inj ht
      exact h.idle hd (by rw [hpc]; rfl) rfl
    | _ => cases ht
  | header =>
    rw [hpc] at ht
    cases e with
    | header req =>
      obtain rfl := Option.some.inj ht
      exact h.idle hd (by rw [hpc]; rfl) rfl
    | fail =>
      obtain rfl := Option.some.inj ht
      exact h.idle hd (by rw [hpc]; rfl) rfl
    | _ => cases ht
  | newJob req =>
    rw [hpc] at ht
    cases e with
    | go =>
      obtain rfl := Option.some.inj ht
      exact h.newJob hd hpc (hwrap rfl)
    | _ => cases ht
  | creatData req jobid =>
    obtain ⟨hr, hfresh⟩ := h.spools hd hpc
    have hreq : ∀ req, s.spool.reqs jobid ≠ some (some req) := by
      rw [hr]
      exact nofun
    rw [hpc] at ht
    cases e with
    | go =>
      obtain rfl := Option.some.inj ht
      exact h.writeData hd hpc rfl (.inl rfl) hfresh hreq ⟨hr, Function.update_self .., hfresh⟩
    | fail =>
      obtain rfl := Option.some.inj ht
      exact h.carryOnUnsent hd hpc rfl (.inr rfl) hfresh hreq trivial
    | _ => cases ht
  | reading first req jobid got =>
    obtain ⟨hr, hdata, hfresh⟩ := h.spools hd hpc
    have hreq : ∀ req, s.spool.reqs jobid ≠ some (some req) := by
      rw [hr]
      exact nofun
    rw [hpc] at ht
    cases e with
    | go =>
      obtain rfl := Option.some.inj ht
      exact h.carryOnUnsent hd hpc rfl (.inl rfl) hfresh hreq ⟨hr, hdata, hfresh⟩
    | chunk buf stale =>
      obtain ⟨-, ht⟩ := Option.ite_none_left_eq_some.mp ht
      obtain rfl := Option.some.inj ht
      refine h.writeData hd hpc rfl (.inl rfl) hfresh hreq ⟨hr, ?_, hfresh⟩
      rw [Spool.setData, hdata]
      exact Function.update_self ..
    | shortWrite buf nw =>
      obtain ⟨-, ht⟩ := Option.ite_none_right_eq_some.mp ht
      obtain rfl := Option.some.inj ht
      exact h.writeData hd hpc rfl (.inl rfl) hfresh hreq ⟨hreq, hfresh⟩
    | _ => cases ht
  | creatReq req jobid got =>
    obtain ⟨hr, hdata, hfresh⟩ := h.spools hd hpc
    have hreq : ∀ req, s.spool.reqs jobid ≠ some (some req) := by
      rw [hr]
      exact nofun
    rw [hpc] at ht
    cases e with
    | go =>
      obtain rfl := Option.some.inj ht
      exact h.writeReq hd hpc rfl rfl hfresh hreq (by rintro _ ⟨⟩) ⟨Function.update_self .., hdata, hfresh⟩
    | fail =>
      obtain rfl := Option.some.inj ht
      exact h.carryOnUnsent hd hpc rfl (.inl rfl) hfresh hreq ⟨hreq, hfresh⟩
    | _ => cases ht
  | writeReq req jobid got =>
    obtain ⟨hr, hdata, hfresh⟩ := h.spools hd hpc
    rw [hpc] at ht
    cases e with
    | go =>
      obtain rfl := Option.some.inj ht
      exact h.accept hd hpc
    | fail =>
      obtain rfl := Option.some.inj ht
      exact h.carryOnUnsent hd hpc rfl (.inl rfl) hfresh (by rw [hr]; exact nofun) ⟨hr, hfresh⟩
    | _ => cases ht
  | respond req jobid got =>
    rw [hpc] at ht
    cases e with
    | go =>
      obtain rfl := Option.some.inj ht
      exact h.respond hd hpc fun _ hid => hid
    | fail =>
      obtain rfl := Option.some.inj ht
      exact h.respond hd hpc (List.subset_append_left _ _)
    | _ => cases ht
  | addJob req jobid got =>
    rw [hpc] at ht
    cases e with
    | go =>
      obtain rfl := Option.some.inj ht
      exact h.addJob hd hpc
    | _ => cases ht
  | unlinkReq jobid =>
    obtain ⟨hr, hfresh⟩ := h.spools hd hpc
    have hreq : ∀ req, s.spool.reqs jobid ≠ some (some req) := by
      rw [hr]
      exact nofun
    rw [hpc] at ht
    cases e with
    | go =>
      obtain rfl := Option.some.inj ht
      have hgone : (s.spool.setReq jobid none).reqs jobid = none := Function.update_self ..
      exact h.writeReq hd hpc rfl rfl hfresh hreq (by rintro _ ⟨⟩) ⟨by rw [hgone]; exact nofun, hfresh⟩
    | fail =>
      obtain rfl := Option.some.inj ht
      exact h.carryOnUnsent hd hpc rfl (.inl rfl) hfresh hreq ⟨hreq, hfresh⟩
    | _ => cases ht
  | unlinkData jobid =>
    obtain ⟨hreq, hfresh⟩ := h.spools hd hpc
    rw [hpc] at ht
    cases e with
    | go =>
      obtain rfl := Option.some.inj ht
      exact h.writeData hd hpc rfl (.inr rfl) hfresh hreq trivial
    | fail =>
      obtain rfl := Option.some.inj ht
      exact h.carryOnUnsent hd hpc rfl (.inr rfl) hfresh hreq trivial
    | _ => cases ht

end Inv
end CLib.Printer
