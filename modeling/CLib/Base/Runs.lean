import Mathlib.Data.List.Induction
import Mathlib.Tactic.Common

namespace CLib.Base
variable {σ ℓ : Type*} (step : σ → ℓ → Option σ)

/-- Run a partial labelled step function; a label that is not enabled ends the run. -/
def runFrom : σ → List ℓ → Option σ
  | s, [] => some s
  | s, l :: ls => (step s l).bind fun t => runFrom t ls

/-- The states that the run of `ls` from `s` passes through, `s` included. -/
def Visits (s : σ) (ls : List ℓ) (t : σ) : Prop :=
  ∃ pre, pre <+: ls ∧ runFrom step s pre = some t

/-- The run of `ls` from `s` takes the step `l` in the state `t`. -/
def Takes (s : σ) (ls : List ℓ) (t : σ) (l : ℓ) : Prop :=
  ∃ pre, pre ++ [l] <+: ls ∧ runFrom step s pre = some t ∧ (step t l).isSome

/-- Every step that the run takes is taken in a state where `G` allows it. -/
def Along (G : σ → ℓ → Prop) (s : σ) (ls : List ℓ) : Prop :=
  ∀ t l, Takes step s ls t l → G t l

/-- States that some run from `s` ends in. -/
def Reachable (s t : σ) : Prop := ∃ ls, runFrom step s ls = some t

/-- Every label of the list comes in a state where `G` allows it, as far as the run gets. -/
def Offers (G : σ → ℓ → Prop) : σ → List ℓ → Prop
  | _, [] => True
  | s, l :: ls => G s l ∧ ∀ t, step s l = some t → Offers G t ls

variable {step}

@[simp] theorem runFrom_nil (s : σ) : runFrom step s [] = some s := rfl

theorem runFrom_cons (s : σ) (l : ℓ) (ls : List ℓ) :
    runFrom step s (l :: ls) = (step s l).bind fun t => runFrom step t ls := rfl

theorem runFrom_cons_of_step {s t : σ} {l : ℓ} (h : step s l = some t) (ls : List ℓ) :
    runFrom step s (l :: ls) = runFrom step t ls := by
  rw [runFrom_cons, h, Option.bind_some]

theorem runFrom_append (s : σ) (ls ms : List ℓ) :
    runFrom step s (ls ++ ms) = (runFrom step s ls).bind fun t => runFrom step t ms := by
  induction ls generalizing s with
  | nil => rfl
  | cons l ls ih =>
    rw [List.cons_append, runFrom_cons, runFrom_cons]
    cases step s l with
    | none => rfl
    | some t => exact ih t

theorem Reachable.refl (s : σ) : Reachable step s s := ⟨[], rfl⟩

theorem Reachable.concat {s t u : σ} {l : ℓ} (h : Reachable step s t) (hl : step t l = some u) :
    Reachable step s u := by
  obtain ⟨ls, hls⟩ := h
  refine ⟨ls ++ [l], ?_⟩
  rw [runFrom_append, hls, Option.bind_some, runFrom_cons_of_step hl]
  rfl

theorem Reachable.trans {s t u : σ} (hst : Reachable step s t) (htu : Reachable step t u) :
    Reachable step s u := by
  obtain ⟨ls, hls⟩ := hst
  obtain ⟨ms, hms⟩ := htu
  refine ⟨ls ++ ms, ?_⟩
  rw [runFrom_append, hls, Option.bind_some, hms]

theorem Reachable.cons {s t u : σ} {l : ℓ} (hl : step s l = some t) (h : Reachable step t u) :
    Reachable step s u := by
  obtain ⟨ls, hls⟩ := h
  exact ⟨l :: ls, (runFrom_cons_of_step hl ls).trans hls⟩

theorem Visits.reachable {s t : σ} {ls : List ℓ} (h : Visits step s ls t) : Reachable step s t := by
  obtain ⟨pre, -, hpre⟩ := h
  exact ⟨pre, hpre⟩

theorem Takes.visits {s t : σ} {l : ℓ} {ls : List ℓ} (h : Takes step s ls t l) :
    Visits step s ls t := by
  obtain ⟨pre, hpre, hrun, -⟩ := h
  exact ⟨pre, (List.prefix_append pre [l]).trans hpre, hrun⟩

/-- The run rule: what holds at the start, and is kept by every step that the
guard allows, holds in every state of a run that keeps to the guard. -/
theorem Along.invariant {G : σ → ℓ → Prop} {I : σ → Prop} {s : σ} {ls : List ℓ}
    (hG : Along step G s ls) (h0 : I s)
    (hstep : ∀ t l u, I t → G t l → step t l = some u → I u) :
    ∀ t, Visits step s ls t → I t := by
  have key : ∀ pre : List ℓ, pre <+: ls → ∀ t, runFrom step s pre = some t → I t := by
    intro pre
    induction pre using List.reverseRecOn with
    | nil =>
      intro _ t ht
      rw [← Option.some.inj ht]
      exact h0
    | append_singleton pre l ih =>
      intro hpre u hu
      rw [runFrom_append, Option.bind_eq_some_iff] at hu
      obtain ⟨t, ht, hu⟩ := hu
      rw [runFrom_cons, Option.bind_eq_some_iff] at hu
      obtain ⟨u', hl, hu'⟩ := hu
      obtain rfl : u' = u := Option.some.inj hu'
      have htakes : Takes step s ls t l := ⟨pre, hpre, ht, by rw [hl]; rfl⟩
      exact hstep t l u' (ih ((List.prefix_append pre [l]).trans hpre) t ht) (hG t l htakes) hl
  rintro t ⟨pre, hpre, ht⟩
  exact key pre hpre t ht

/-- The same without a guard: an inductive invariant holds in every reachable state. -/
theorem Reachable.invariant {I : σ → Prop} {s t : σ} (h : Reachable step s t) (h0 : I s)
    (hstep : ∀ t l u, I t → step t l = some u → I u) : I t := by
  obtain ⟨ls, hls⟩ := h
  have hG : Along step (fun _ _ => True) s ls := fun _ _ _ => trivial
  exact hG.invariant h0 (fun t l u hI _ => hstep t l u hI) t ⟨ls, List.prefix_rfl, hls⟩

/-- Two guards that agree on the states of an invariant allow the same runs. -/
theorem along_congr {G H : σ → ℓ → Prop} {I : σ → Prop} {s : σ} {ls : List ℓ} (h0 : I s)
    (hstep : ∀ t l u, I t → step t l = some u → I u) (hGH : ∀ t l, I t → (G t l ↔ H t l)) :
    Along step G s ls ↔ Along step H s ls := by
  refine forall_congr' fun t => forall_congr' fun l => forall_congr' fun htakes => hGH t l ?_
  exact htakes.visits.reachable.invariant h0 hstep

theorem along_nil (G : σ → ℓ → Prop) (s : σ) : Along step G s [] := by
  rintro t l ⟨pre, hpre, -⟩
  simp at hpre

theorem along_cons {G : σ → ℓ → Prop} {s t : σ} {l : ℓ} {ls : List ℓ}
    (hl : step s l = some t) (hG : G s l) (h : Along step G t ls) : Along step G s (l :: ls) := by
  rintro u m ⟨pre, hpre, hrun, hm⟩
  cases pre with
  | nil =>
    obtain rfl : s = u := Option.some.inj hrun
    obtain rfl : m = l := by simpa using hpre
    exact hG
  | cons l' pre =>
    rw [List.cons_append, List.cons_prefix_cons] at hpre
    obtain ⟨rfl, hpre⟩ := hpre
    rw [runFrom_cons_of_step hl] at hrun
    exact h u m ⟨pre, hpre, hrun, hm⟩

theorem along_cons_iff {G : σ → ℓ → Prop} {s t : σ} {l : ℓ} {ls : List ℓ}
    (hl : step s l = some t) : Along step G s (l :: ls) ↔ G s l ∧ Along step G t ls := by
  refine ⟨fun h => ⟨h s l ⟨[], by simp, rfl, by rw [hl]; rfl⟩, ?_⟩, fun h => along_cons hl h.1 h.2⟩
  rintro u m ⟨pre, hpre, hrun, hm⟩
  refine h u m ⟨l :: pre, ?_, (runFrom_cons_of_step hl pre).trans hrun, hm⟩
  rw [List.cons_append, List.cons_prefix_cons]
  exact ⟨rfl, hpre⟩

theorem along_of_blocked {G : σ → ℓ → Prop} {s : σ} {l : ℓ} (hl : step s l = none) (ls : List ℓ) :
    Along step G s (l :: ls) := by
  rintro u m ⟨pre, hpre, hrun, hm⟩
  cases pre with
  | nil =>
    obtain rfl : s = u := Option.some.inj hrun
    obtain rfl : m = l := by simpa using hpre
    rw [hl] at hm
    cases hm
  | cons l' pre =>
    rw [List.cons_append, List.cons_prefix_cons] at hpre
    rw [runFrom_cons, hpre.1, hl] at hrun
    cases hrun

/-- A run in all whose states a property holds keeps to the guard, if each step that the
guard forbids loses the property. -/
theorem along_of_forall_visits {G : σ → ℓ → Prop} {I P : σ → Prop} {s : σ} {ls : List ℓ} (h0 : I s)
    (hstep : ∀ t l u, I t → G t l → step t l = some u → I u)
    (hback : ∀ t l u, I t → step t l = some u → P u → G t l) (h : ∀ t, Visits step s ls t → P t) :
    Along step G s ls := by
  induction ls generalizing s with
  | nil => exact along_nil G s
  | cons l ls ih =>
    cases hl : step s l with
    | none => exact along_of_blocked hl ls
    | some t =>
      have hvisits : ∀ u, Visits step t ls u → P u := by
        rintro u ⟨pre, hpre, hrun⟩
        refine h u ⟨l :: pre, ?_, (runFrom_cons_of_step hl pre).trans hrun⟩
        rw [List.cons_prefix_cons]
        exact ⟨rfl, hpre⟩
      have hG : G s l := hback s l t h0 hl (hvisits t ⟨[], List.nil_prefix, rfl⟩)
      exact along_cons hl hG (ih (hstep s l t h0 hG hl) hvisits)

/-- A property that an invariant gives, and that a step from a state of the invariant
loses where the guard forbids it, is kept by exactly the runs that keep to the guard. -/
theorem along_iff_forall_visits_of_invariant {G : σ → ℓ → Prop} {I P : σ → Prop} {s : σ}
    {ls : List ℓ} (hIP : ∀ t, I t → P t) (h0 : I s)
    (hstep : ∀ t l u, I t → G t l → step t l = some u → I u)
    (hback : ∀ t l u, I t → step t l = some u → P u → G t l) :
    (∀ t, Visits step s ls t → P t) ↔ Along step G s ls :=
  ⟨along_of_forall_visits h0 hstep hback, fun hG t ht => hIP t (hG.invariant h0 hstep t ht)⟩

theorem along_iff_forall_visits {G : σ → ℓ → Prop} {I P : σ → Prop} {s : σ} {ls : List ℓ}
    (hIP : ∀ t, I t → P t) (h0 : I s) (hstep : ∀ t l u, I t → G t l → step t l = some u → I u)
    (hback : ∀ t l u, step t l = some u → P u → G t l) :
    (∀ t, Visits step s ls t → P t) ↔ Along step G s ls :=
  along_iff_forall_visits_of_invariant hIP h0 hstep fun t l u _ => hback t l u

instance decidableAlong {G : σ → ℓ → Prop} [∀ s, DecidablePred (G s)] :
    ∀ s ls, Decidable (Along step G s ls)
  | s, [] => .isTrue (along_nil G s)
  | s, l :: ls =>
    match hl : step s l with
    | none => .isTrue (along_of_blocked hl ls)
    | some t =>
      have : Decidable (Along step G t ls) := decidableAlong t ls
      decidable_of_iff (G s l ∧ Along step G t ls) (along_cons_iff hl).symm

theorem along_append {G : σ → ℓ → Prop} {s t : σ} {ls ms : List ℓ}
    (hs : runFrom step s ls = some t) (h : Along step G s ls) (h' : Along step G t ms) :
    Along step G s (ls ++ ms) := by
  induction ls generalizing s with
  | nil =>
    obtain rfl : s = t := Option.some.inj hs
    exact h'
  | cons l ls ih =>
    rw [runFrom_cons, Option.bind_eq_some_iff] at hs
    obtain ⟨u, hl, hs⟩ := hs
    obtain ⟨hG, h⟩ := (along_cons_iff hl).mp h
    exact along_cons hl hG (ih hs h)

theorem along_of_forall_mem {G : σ → ℓ → Prop} {ls : List ℓ} (h : ∀ l ∈ ls, ∀ t, G t l) (s : σ) :
    Along step G s ls := by
  rintro t l ⟨pre, hpre, -⟩
  exact h l (hpre.subset (by simp)) t

theorem offers_cons_iff {G : σ → ℓ → Prop} {s t : σ} {l : ℓ} {ls : List ℓ} (hl : step s l = some t) :
    Offers step G s (l :: ls) ↔ G s l ∧ Offers step G t ls := by
  simp [Offers, hl]

theorem offers_of_blocked {G : σ → ℓ → Prop} {s : σ} {l : ℓ} {ls : List ℓ} (hl : step s l = none) :
    Offers step G s (l :: ls) ↔ G s l := by
  simp [Offers, hl]

instance decidableOffers {G : σ → ℓ → Prop} [∀ s, DecidablePred (G s)] :
    ∀ s ls, Decidable (Offers step G s ls)
  | _, [] => .isTrue trivial
  | s, l :: ls =>
    match hl : step s l with
    | none => decidable_of_iff (G s l) (offers_of_blocked hl).symm
    | some t =>
      have : Decidable (Offers step G t ls) := decidableOffers t ls
      decidable_of_iff (G s l ∧ Offers step G t ls) (offers_cons_iff hl).symm

/-- The simulation rule: if every allowed label is taken, and leads to a state that is
related to what the total step function `astep` makes of the same label, then a run of
allowed labels goes through to its end and stays related. -/
theorem Offers.simulates {τ : Type*} {astep : τ → ℓ → τ} {G : σ → ℓ → Prop} {R : σ → τ → Prop}
    (hstep : ∀ s a l, R s a → G s l → ∃ t, step s l = some t ∧ R t (astep a l))
    {s : σ} {a : τ} (h0 : R s a) {ls : List ℓ} (h : Offers step G s ls) :
    ∃ t, runFrom step s ls = some t ∧ R t (ls.foldl astep a) := by
  induction ls generalizing s a with
  | nil => exact ⟨s, rfl, h0⟩
  | cons l ls ih =>
    obtain ⟨hG, h⟩ := h
    obtain ⟨t, ht, hR⟩ := hstep s a l h0 hG
    rw [runFrom_cons_of_step ht]
    exact ih hR (h t ht)

end CLib.Base
