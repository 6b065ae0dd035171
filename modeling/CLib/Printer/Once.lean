import CLib.Printer.Runs

namespace CLib.Printer
open CLib.Base
variable {ι : Type} {s t : State ι} {d : Daemon ι} {i : ι} {e : Event} {jobid : ℕ}

section Frames

theorem State.client_data [DecidableEq ι] (ht : s.client d i e = some t) :
    t.printed = s.printed ∧ (∃ d', t.daemon = some d' ∧ d'.printer = d.printer) ∧
      ∀ id, (d.clients i).writes ≠ some id → t.spool.data id = s.spool.data id := by
  unfold State.client at ht
  grind [State.goClient, ClientPc.writes]

theorem State.printer_data (ht : s.printer d e = some t) (hpc : d.printer.finishing = none)
    (hstatus : ∀ jp sent, d.printer ≠ .status jp sent) :
    t.printed = s.printed ∧ t.spool.data = s.spool.data := by
  unfold State.printer at ht
  grind [State.goPrinter, PrinterPc.finishing]

theorem State.build_data (ht : s.build d e = some t) :
    t.printed = s.printed ∧ (∃ d', t.daemon = some d' ∧ d'.printer = d.printer) ∧
      ∀ id, t.spool.data id = s.spool.data id ∨ t.spool.data id = none := by
  unfold State.build at ht
  grind

/-- A client thread writes only the file of a job that it has not yet sent. -/
theorem ClientPc.Spools.fresh {pc : ClientPc} {spool : Spool} {accepted : List (Job × Text)}
    (h : pc.Spools spool accepted) (hwrites : pc.writes = some jobid) : Fresh accepted jobid := by
  cases pc with
  | creatData req id | unlinkData id =>
    obtain rfl := Option.some.inj hwrites
    exact h.2
  | reading first req id got =>
    obtain rfl := Option.some.inj hwrites
    exact h.2.2
  | _ => cases hwrites

end Frames

/-- A job is printed once, and its data is gone or the printer thread is about to unlink it. -/
structure Once (s : State ι) : Prop where
  nodup : (s.printed.map fun x => x.1.jobid).Nodup
  gone : ∀ x ∈ s.printed, s.spool.data x.1.jobid = none ∨
    ∃ d, s.daemon = some d ∧ d.printer.finishing = some x.1

namespace Once

theorem data_eq_none (h : Once s) (hd : s.daemon = some d) (hpc : d.printer.finishing = none)
    {x : Job × Text} (hx : x ∈ s.printed) : s.spool.data x.1.jobid = none := by
  rcases h.gone x hx with hgone | ⟨d', hd', hprinter⟩
  · exact hgone
  · obtain rfl := Option.some.inj (hd.symm.trans hd')
    cases hpc.symm.trans hprinter

/-- The printer thread stays where it is, and no data file of a printed job comes back. -/
theorem frame (h : Once s) (hd : s.daemon = some d) (hprinted : t.printed = s.printed)
    (hdaemon : ∃ d', t.daemon = some d' ∧ d'.printer = d.printer)
    (hdata : ∀ x ∈ s.printed, t.spool.data x.1.jobid = s.spool.data x.1.jobid ∨ t.spool.data x.1.jobid = none) :
    Once t := by
  obtain ⟨d', hd', hprinter⟩ := hdaemon
  refine ⟨by rw [hprinted]; exact h.nodup, fun x hx => ?_⟩
  rw [hprinted] at hx
  rcases h.gone x hx with hgone | ⟨d₀, hd₀, hunlink⟩
  · refine .inl ((hdata x hx).elim (fun heq => ?_) fun hnone => hnone)
    rw [heq]
    exact hgone
  · obtain rfl := Option.some.inj (hd.symm.trans hd₀)
    exact .inr ⟨d', hd', hprinter ▸ hunlink⟩

theorem dropData (h : Once s) (hd : s.daemon = some d) {jp : Job} (hpc : d.printer = .unlinkData jp) :
    Once ({ s with spool := s.spool.setData jp.jobid none }.goPrinter d (.unlinkReq jp)) := by
  refine ⟨h.nodup, fun x hx => .inl ?_⟩
  dsimp only [State.goPrinter]
  rw [Spool.setData_data]
  split_ifs with hid
  · rfl
  · rcases h.gone x hx with hgone | ⟨d', hd', hunlink⟩
    · exact hgone
    · obtain rfl := Option.some.inj (hd.symm.trans hd')
      rw [hpc, PrinterPc.finishing, Option.some.injEq] at hunlink
      exact absurd (congrArg Job.jobid hunlink).symm hid

variable [Fintype ι]

theorem client [DecidableEq ι] (h : Once s) (hinv : Inv s) (hd : s.daemon = some d)
    (ht : s.client d i e = some t) : Once t := by
  obtain ⟨hprinted, hdaemon, hdata⟩ := State.client_data ht
  refine h.frame hd hprinted hdaemon fun x hx => .inl (hdata _ fun hwrites => ?_)
  obtain ⟨y, hy, rfl⟩ := hinv.stored.genuine x hx
  exact ((hinv.serving d hd).clients i).fresh hwrites y hy rfl

/-- The job that is printed is not one of those printed before, whose data is gone. -/
theorem print (h : Once s) (hinv : Inv s) (hd : s.daemon = some d) {jp : Job} {sent : Text}
    (hpc : d.printer = .status jp sent) :
    Once ({ s with printed := s.printed ++ [(jp, sent)] }.goPrinter d (.answer jp)) := by
  obtain ⟨-, -, c, hdata, -⟩ := hinv.printing hd hpc
  have hnone : ∀ x ∈ s.printed, s.spool.data x.1.jobid = none := fun x hx =>
    h.data_eq_none hd (by rw [hpc]; rfl) hx
  refine ⟨?_, fun x hx => ?_⟩
  · dsimp only [State.goPrinter]
    rw [List.map_append, List.nodup_append]
    refine ⟨h.nodup, List.nodup_singleton _, fun a ha b hb => ?_⟩
    obtain ⟨x, hx, rfl⟩ := List.mem_map.mp ha
    rw [List.mem_singleton.mp hb]
    -- the file that has been sent is still there
    intro (heq : x.1.jobid = jp.jobid)
    rw [← heq, hnone x hx] at hdata
    cases hdata
  · rcases List.mem_append.mp hx with hx | hx
    · exact .inl (hnone x hx)
    · rw [List.mem_singleton.mp hx]
      exact .inr ⟨_, rfl, rfl⟩

theorem printer (h : Once s) (hinv : Inv s) (hd : s.daemon = some d)
    (hfinishes : e = .fail → d.printer.finishing = none) (ht : s.printer d e = some t) : Once t := by
  cases hpc : d.printer with
  | status jp sent =>
    have hnone : ∀ x ∈ s.printed, s.spool.data x.1.jobid = none := fun x hx =>
      h.data_eq_none hd (by rw [hpc]; rfl) hx
    unfold State.printer at ht
    rw [hpc] at ht
    cases e with
    | go =>
      obtain rfl := Option.some.inj ht
      exact h.print hinv hd hpc
    | fail =>
      obtain rfl := Option.some.inj ht
      exact ⟨h.nodup, fun x hx => .inl (hnone x hx)⟩
    | _ => cases ht
  | answer jp =>
    unfold State.printer at ht
    rw [hpc] at ht hfinishes
    cases e with
    | go =>
      obtain rfl := Option.some.inj ht
      refine ⟨h.nodup, fun x hx => (h.gone x hx).imp (fun hgone => hgone) ?_⟩
      rintro ⟨d', hd', hunlink⟩
      obtain rfl := Option.some.inj (hd.symm.trans hd')
      rw [hpc] at hunlink
      exact ⟨_, rfl, hunlink⟩
    | fail => cases hfinishes rfl
    | _ => cases ht
  | unlinkData jp =>
    unfold State.printer at ht
    rw [hpc] at ht hfinishes
    cases e with
    | go =>
      obtain rfl := Option.some.inj ht
      exact h.dropData hd hpc
    | fail => cases hfinishes rfl
    | _ => cases ht
  | _ =>
    have hfinishing : d.printer.finishing = none := by rw [hpc]; rfl
    obtain ⟨hprinted, hdata⟩ := State.printer_data ht hfinishing (by rw [hpc]; exact nofun)
    refine ⟨by rw [hprinted]; exact h.nodup, fun x hx => .inl ?_⟩
    rw [hprinted] at hx
    rw [hdata]
    exact h.data_eq_none hd hfinishing hx

theorem step [DecidableEq ι] (h : Once s) (hinv : Inv s) {l : Label ι} (hl : s.Finishes l)
    (ht : s.step l = some t) : Once t := by
  cases l with
  | restart entries =>
    obtain ⟨hnone, ht⟩ := Option.ite_none_right_eq_some.mp ht
    obtain rfl := Option.some.inj ht
    refine ⟨h.nodup, fun x hx => .inl ((h.gone x hx).resolve_right ?_)⟩
    rintro ⟨d, hd, -⟩
    rw [hd] at hnone
    cases hnone
  | crash =>
    obtain ⟨hsome, ht⟩ := Option.ite_none_right_eq_some.mp ht
    obtain rfl := Option.some.inj ht
    obtain ⟨d, hd⟩ := Option.isSome_iff_exists.mp hsome
    exact ⟨h.nodup, fun x hx => .inl (h.data_eq_none hd (hl d hd) hx)⟩
  | build e =>
    obtain ⟨d, hd, ht⟩ := Option.bind_eq_some_iff.mp ht
    obtain ⟨hprinted, hdaemon, hdata⟩ := State.build_data ht
    exact h.frame hd hprinted hdaemon fun x _ => hdata x.1.jobid
  | client i e =>
    obtain ⟨d, hd, ht⟩ := Option.bind_eq_some_iff.mp ht
    exact h.client hinv hd ht
  | printer e =>
    obtain ⟨d, hd, ht⟩ := Option.bind_eq_some_iff.mp ht
    refine h.printer hinv hd ?_ ht
    rintro rfl
    exact hl d hd

end Once

namespace State
variable [Fintype ι] [DecidableEq ι] {ls : List (Label ι)}

/-- Else the next daemon finds the job again and prints it a second time. -/
theorem printed_twice : ∃ s, runFrom step (start : State Unit) (oneJob.dropLast ++
    [.printer .go, .printer .go, .printer (.copy 2), .printer .go, .printer .go, .crash] ++ printedLater) =
      some s ∧ (s.printed.map fun x => x.1.jobid) = [1, 1] :=
  ⟨_, (Option.some_get (by decide)).symm, by decide⟩

theorem printed_again : ∃ s, runFrom step (start : State Unit) (oneJob.dropLast ++
    [.printer .go, .printer .go, .printer (.copy 2), .printer .go, .printer .go, .printer .fail,
      .printer .go, .printer .go, .printer .go, .printer .go, .printer .go, .printer (.copy 2),
      .printer .go, .printer .go]) = some s ∧ (s.printed.map fun x => x.1.jobid) = [1, 1] :=
  ⟨_, (Option.some_get (by decide)).symm, by decide⟩

end State
end CLib.Printer
