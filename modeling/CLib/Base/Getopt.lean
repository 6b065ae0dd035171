import CLib.Base.CString
import Mathlib.Data.List.Perm.Basic

namespace CLib.Base

/-- How a letter of the option string is used. -/
inductive OptKind
  | flag
  | argument
  deriving DecidableEq

/-- What a call of `getopt` returns, with `optarg`. -/
structure Opt where
  letter : Char
  arg : Option Text
  deriving DecidableEq

/-- A letter takes an argument if a colon stands behind it. -/
def optKind (optString : Text) (c : Char) : Option OptKind :=
  if c = ':' then none
  else
    match optString.dropWhile (· != c) with
    | [] => none
    | _ :: ':' :: _ => some .argument
    | _ :: _ => some .flag

section
variable (optString : Text)

/-- The options of an element behind its `-`, and the letter that still lacks its argument.
There is no result where `getopt` returns `?` for a letter that it does not know. -/
def elementOpts : Text → Option (List Opt × Option Char)
  | [] => some ([], none)
  | c :: cs =>
    match optKind optString c with
    | none => none
    | some .flag => (elementOpts cs).map fun r => (⟨c, none⟩ :: r.1, r.2)
    | some .argument => if cs = [] then some ([], some c) else some ([⟨c, some cs⟩], none)

/-- The arguments after the last call of `getopt`: the elements that it has scanned, and the
operands behind them. -/
structure Scanned where
  opts : List Opt
  elements : List Text
  operands : List Text
  deriving DecidableEq

/-- The argument vector in the order that `getopt` leaves it in. -/
def Scanned.argv (s : Scanned) : List Text := s.elements ++ s.operands

/-- An element that `getopt` does not take for an operand. A single `-` is one. -/
def isOptElement (a : Text) : Bool := a.head? = some '-' && decide (2 ≤ a.length)

/-- The calls of `getopt` until it returns -1, unless one of them returns `?`. The GNU version
permutes the operands to the end, the one of POSIX stops at the first of them. -/
def getopt (permute : Bool) : List Text → Option Scanned
  | [] => some ⟨[], [], []⟩
  | a :: rest =>
    if a = "--".toList then some ⟨[], [a], rest⟩
    else if isOptElement a then
      match elementOpts optString a.tail with
      | none => none
      | some (opts, none) =>
        (getopt permute rest).map fun s => ⟨opts ++ s.opts, a :: s.elements, s.operands⟩
      | some (opts, some c) =>
        match rest with
        | [] => none
        | arg :: rest =>
          (getopt permute rest).map fun s =>
            ⟨opts ++ ⟨c, some arg⟩ :: s.opts, a :: arg :: s.elements, s.operands⟩
    else if permute then (getopt permute rest).map fun s => { s with operands := a :: s.operands }
    else some ⟨[], [], a :: rest⟩

end

section
variable {optString : Text} {permute : Bool} {a arg : Text} {rest args ops : List Text}
  {opts : List Opt} {c : Char} {s : Scanned}

theorem getopt_dashes :
    getopt optString permute ("--".toList :: rest) = some ⟨[], ["--".toList], rest⟩ := by
  rw [getopt, if_pos rfl]

theorem getopt_unknown (hdash : a ≠ "--".toList) (ha : isOptElement a)
    (hopts : elementOpts optString a.tail = none) : getopt optString permute (a :: rest) = none := by
  rw [getopt, if_neg hdash, if_pos ha, hopts]

theorem getopt_element (hdash : a ≠ "--".toList) (ha : isOptElement a)
    (hopts : elementOpts optString a.tail = some (opts, none)) :
    getopt optString permute (a :: rest) = (getopt optString permute rest).map fun s =>
      ⟨opts ++ s.opts, a :: s.elements, s.operands⟩ := by
  rw [getopt, if_neg hdash, if_pos ha, hopts]

theorem getopt_lacking (hdash : a ≠ "--".toList) (ha : isOptElement a)
    (hopts : elementOpts optString a.tail = some (opts, some c)) :
    getopt optString permute [a] = none := by
  rw [getopt, if_neg hdash, if_pos ha, hopts]

theorem getopt_argument (hdash : a ≠ "--".toList) (ha : isOptElement a)
    (hopts : elementOpts optString a.tail = some (opts, some c)) :
    getopt optString permute (a :: arg :: rest) = (getopt optString permute rest).map fun s =>
      ⟨opts ++ ⟨c, some arg⟩ :: s.opts, a :: arg :: s.elements, s.operands⟩ := by
  rw [getopt, if_neg hdash, if_pos ha, hopts]

theorem getopt_operand (hdash : a ≠ "--".toList) (ha : ¬ isOptElement a) :
    getopt optString permute (a :: rest) =
      if permute then
        (getopt optString permute rest).map fun s => { s with operands := a :: s.operands }
      else some ⟨[], [], a :: rest⟩ := by
  rw [getopt, if_neg hdash, if_neg ha]

end

/-- The scans of `getopt` that meet no unknown letter and no missing argument. -/
inductive Scan (optString : Text) (permute : Bool) : List Text → Scanned → Prop
  | done : Scan optString permute [] ⟨[], [], []⟩
  | dashes (rest : List Text) : Scan optString permute ("--".toList :: rest) ⟨[], ["--".toList], rest⟩
  | element {a : Text} {rest : List Text} {opts : List Opt} {s : Scanned} (hdash : a ≠ "--".toList)
      (ha : isOptElement a) (hopts : elementOpts optString a.tail = some (opts, none))
      (hrest : Scan optString permute rest s) :
      Scan optString permute (a :: rest) ⟨opts ++ s.opts, a :: s.elements, s.operands⟩
  | argument {a arg : Text} {rest : List Text} {opts : List Opt} {c : Char} {s : Scanned}
      (hdash : a ≠ "--".toList) (ha : isOptElement a)
      (hopts : elementOpts optString a.tail = some (opts, some c))
      (hrest : Scan optString permute rest s) :
      Scan optString permute (a :: arg :: rest)
        ⟨opts ++ ⟨c, some arg⟩ :: s.opts, a :: arg :: s.elements, s.operands⟩
  | moved {a : Text} {rest : List Text} {s : Scanned} (hpermute : permute) (hdash : a ≠ "--".toList)
      (ha : ¬ isOptElement a) (hrest : Scan optString permute rest s) :
      Scan optString permute (a :: rest) { s with operands := a :: s.operands }
  | stopped {a : Text} {rest : List Text} (hpermute : ¬ permute) (hdash : a ≠ "--".toList)
      (ha : ¬ isOptElement a) : Scan optString permute (a :: rest) ⟨[], [], a :: rest⟩

section
variable {optString : Text} {permute : Bool} {args ops : List Text} {a : Text} {s : Scanned}

theorem scan_of_getopt (h : getopt optString permute args = some s) :
    Scan optString permute args s := by
  induction args using getopt.induct optString permute generalizing s with
  | case1 =>
    rw [← Option.some.inj h]
    exact .done
  | case2 rest =>
    rw [getopt_dashes] at h
    rw [← Option.some.inj h]
    exact .dashes rest
  | case3 a rest hdash ha hopts =>
    rw [getopt_unknown hdash ha hopts] at h
    cases h
  | case4 a rest hdash ha opts hopts ih =>
    rw [getopt_element hdash ha hopts] at h
    obtain ⟨s', hs', rfl⟩ := Option.map_eq_some_iff.mp h
    exact .element hdash ha hopts (ih hs')
  | case5 a hdash ha opts c hopts =>
    rw [getopt_lacking hdash ha hopts] at h
    cases h
  | case6 a hdash ha opts c hopts arg rest ih =>
    rw [getopt_argument hdash ha hopts] at h
    obtain ⟨s', hs', rfl⟩ := Option.map_eq_some_iff.mp h
    exact .argument hdash ha hopts (ih hs')
  | case7 a rest hdash ha hpermute ih =>
    rw [getopt_operand hdash ha, if_pos hpermute] at h
    obtain ⟨s', hs', rfl⟩ := Option.map_eq_some_iff.mp h
    exact .moved hpermute hdash ha (ih hs')
  | case8 a rest hdash ha hpermute =>
    rw [getopt_operand hdash ha, if_neg hpermute] at h
    rw [← Option.some.inj h]
    exact .stopped hpermute hdash ha

theorem Scan.argv_perm (h : Scan optString permute args s) : s.argv.Perm args := by
  induction h with
  | done => exact List.Perm.refl _
  | dashes rest => exact List.Perm.refl _
  | element _ _ _ _ ih => exact ih.cons _
  | argument _ _ _ _ ih => exact (ih.cons _).cons _
  | moved _ _ _ _ ih => exact List.perm_middle.trans (ih.cons _)
  | stopped => exact List.Perm.refl _

theorem Scan.elements_append (h : Scan optString permute args s) (hdash : a ≠ "--".toList)
    (ha : ¬ isOptElement a) :
    Scan optString false (s.elements ++ a :: ops) { s with operands := a :: ops } := by
  induction h with
  | done => exact .stopped Bool.false_ne_true hdash ha
  | dashes rest => exact .dashes _
  | element hdash' ha' hopts _ ih => exact .element hdash' ha' hopts ih
  | argument hdash' ha' hopts _ ih => exact .argument hdash' ha' hopts ih
  | moved _ _ _ _ ih => exact ih
  | stopped => exact .stopped Bool.false_ne_true hdash ha

/-- What `getopt` leaves behind is scanned in the same way without moving anything. -/
theorem Scan.argv (h : Scan optString permute args s) : Scan optString false s.argv s := by
  induction h with
  | done => exact .done
  | dashes rest => exact .dashes rest
  | element hdash ha hopts _ ih => exact .element hdash ha hopts ih
  | argument hdash ha hopts _ ih => exact .argument hdash ha hopts ih
  | moved _ hdash ha hrest _ => exact hrest.elements_append hdash ha
  | stopped _ hdash ha => exact .stopped Bool.false_ne_true hdash ha

/-- What `getopt` has returned fits the option string. -/
def Opt.Fits (optString : Text) (o : Opt) : Prop :=
  (optKind optString o.letter = some .flag ∧ o.arg = none) ∨
    (optKind optString o.letter = some .argument ∧ o.arg.isSome)

/-- The first letter of an element is a flag, lacks its argument, or has it attached. -/
theorem elementOpts_cons {c : Char} {cs : Text} {opts : List Opt} {lack : Option Char}
    (h : elementOpts optString (c :: cs) = some (opts, lack)) :
    (optKind optString c = some .flag ∧
        ∃ more, opts = ⟨c, none⟩ :: more ∧ elementOpts optString cs = some (more, lack)) ∨
      (optKind optString c = some .argument ∧
        ((cs = [] ∧ opts = [] ∧ lack = some c) ∨
          (cs ≠ [] ∧ opts = [⟨c, some cs⟩] ∧ lack = none))) := by
  rw [elementOpts] at h
  split at h
  case h_1 => cases h
  case h_2 hkind =>
    obtain ⟨⟨more, lack'⟩, hmore, heq⟩ := Option.map_eq_some_iff.mp h
    obtain ⟨rfl, rfl⟩ := Prod.mk.inj heq
    exact .inl ⟨hkind, more, rfl, hmore⟩
  case h_3 hkind =>
    refine .inr ⟨hkind, ?_⟩
    split_ifs at h with hcs <;> obtain ⟨rfl, rfl⟩ := Prod.mk.inj (Option.some.inj h)
    · exact .inl ⟨hcs, rfl, rfl⟩
    · exact .inr ⟨hcs, rfl, rfl⟩

theorem fits_of_elementOpts {t : Text} {opts : List Opt} {lack : Option Char}
    (h : elementOpts optString t = some (opts, lack)) :
    (∀ o ∈ opts, o.Fits optString) ∧ ∀ c ∈ lack, optKind optString c = some .argument := by
  induction t generalizing opts with
  | nil =>
    obtain ⟨rfl, rfl⟩ := Prod.mk.inj (Option.some.inj h)
    exact ⟨nofun, nofun⟩
  | cons c cs ih =>
    rcases elementOpts_cons h with
      ⟨hkind, more, rfl, hmore⟩ | ⟨hkind, ⟨-, rfl, rfl⟩ | ⟨-, rfl, rfl⟩⟩
    · obtain ⟨hopts, hlack⟩ := ih hmore
      exact ⟨List.forall_mem_cons.mpr ⟨.inl ⟨hkind, rfl⟩, hopts⟩, hlack⟩
    · exact ⟨nofun, fun d hd => Option.some.inj hd ▸ hkind⟩
    · exact ⟨List.forall_mem_singleton.mpr (.inr ⟨hkind, rfl⟩), nofun⟩

theorem elementOpts_arg_length_lt {t w : Text} {opts : List Opt} {lack : Option Char} {o : Opt}
    (h : elementOpts optString t = some (opts, lack)) (ho : o ∈ opts) (hw : o.arg = some w) :
    w.length < t.length := by
  induction t generalizing opts with
  | nil =>
    obtain ⟨rfl, rfl⟩ := Prod.mk.inj (Option.some.inj h)
    cases ho
  | cons c cs ih =>
    rcases elementOpts_cons h with ⟨-, more, rfl, hmore⟩ | ⟨-, ⟨-, rfl, -⟩ | ⟨-, rfl, -⟩⟩
    · rcases List.mem_cons.mp ho with rfl | ho
      · cases hw
      · exact (ih hmore ho).trans (Nat.lt_succ_self _)
    · cases ho
    · rw [List.mem_singleton.mp ho] at hw
      rw [← Option.some.inj hw]
      exact Nat.lt_succ_self _

theorem exists_of_isOptElement {a : Text} (h : isOptElement a) : ∃ c cs, a = '-' :: c :: cs := by
  unfold isOptElement at h
  rw [Bool.and_eq_true, decide_eq_true_eq, decide_eq_true_eq] at h
  obtain ⟨hhead, hlen⟩ := h
  match a, hhead, hlen with
  | _ :: c :: cs, hhead, _ => exact ⟨c, cs, by rw [Option.some.inj hhead]⟩

theorem Scan.arg_length_lt {w : Text} {o : Opt} (h : Scan optString permute [a] s) (ho : o ∈ s.opts)
    (hw : o.arg = some w) : w.length < a.length := by
  have htail (opts : List Opt) (lack : Option Char)
      (hopts : elementOpts optString a.tail = some (opts, lack)) (hmem : o ∈ opts) :
      w.length < a.length := by
    apply (elementOpts_arg_length_lt hopts hmem hw).trans_le
    rw [List.length_tail]
    exact Nat.sub_le _ _
  cases h with
  | dashes | stopped => cases ho
  | element _ _ hopts hrest =>
    cases hrest
    exact htail _ _ hopts (by simpa using ho)
  | moved _ _ _ hrest =>
    cases hrest
    cases ho

theorem Scan.fits (h : Scan optString permute args s) : ∀ o ∈ s.opts, o.Fits optString := by
  induction h with
  | done | dashes | stopped => nofun
  | element _ _ hopts _ ih => exact List.forall_mem_append.mpr ⟨(fits_of_elementOpts hopts).1, ih⟩
  | argument _ _ hopts _ ih =>
    obtain ⟨hfits, hlack⟩ := fits_of_elementOpts hopts
    exact List.forall_mem_append.mpr
      ⟨hfits, List.forall_mem_cons.mpr ⟨.inr ⟨hlack _ rfl, rfl⟩, ih⟩⟩
  | moved _ _ _ _ ih => exact ih

end

end CLib.Base
