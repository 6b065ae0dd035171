import CLib.Base.CString

namespace CLib.Base

/-- What `%s` takes as a whole: bytes without a blank among them. -/
structure Word where
  text : Text
  ne_nil : text ≠ []
  not_space : ∀ c ∈ text, isSpace c = false

def spaced (ws : List Word) : Text := (ws.map fun w => ' ' :: w.text).flatten

@[simp] theorem spaced_nil : spaced [] = [] := rfl

@[simp] theorem spaced_cons (w : Word) (ws : List Word) :
    spaced (w :: ws) = ' ' :: (w.text ++ spaced ws) := rfl

/-- The text goes on with a blank, if it goes on. -/
def StartsBlank (t : Text) : Prop := ∀ c ∈ t.head?, isSpace c = true

theorem startsBlank_cons (t : Text) : StartsBlank (' ' :: t) := by
  intro c hc
  obtain rfl : ' ' = c := by simpa using hc
  rfl

theorem startsBlank_spaced_append (ws : List Word) {t : Text} (ht : StartsBlank t) :
    StartsBlank (spaced ws ++ t) := by
  cases ws with
  | nil => exact ht
  | cons w ws => exact startsBlank_cons _

namespace Word
variable (w : Word) {t : Text} (ds : List Directive)

theorem dropWhile_isSpace_append (t : Text) :
    (w.text ++ t).dropWhile isSpace = w.text ++ t := by
  obtain ⟨c, cs, hcs⟩ := List.exists_cons_of_ne_nil w.ne_nil
  have hc : isSpace c = false := w.not_space c (by rw [hcs]; exact List.mem_cons_self)
  rw [hcs, List.cons_append, List.dropWhile_cons_of_neg (by rw [hc]; decide)]

theorem forall_not_isSpace : ∀ c ∈ w.text, (!isSpace c) = true := fun c hc => by
  rw [w.not_space c hc]
  rfl

theorem sscanf_string (ht : StartsBlank t) :
    sscanf (.string :: ds) (w.text ++ t) = w.text :: sscanf ds t := by
  have htake : t.takeWhile (fun c => !isSpace c) = [] := by
    cases t with
    | nil => rfl
    | cons c t => rw [List.takeWhile_cons_of_neg (by simp [ht c rfl])]
  have hdrop : t.dropWhile (fun c => !isSpace c) = t := by
    cases t with
    | nil => rfl
    | cons c t => rw [List.dropWhile_cons_of_neg (by simp [ht c rfl])]
  rw [sscanf, w.dropWhile_isSpace_append, List.takeWhile_append_of_pos w.forall_not_isSpace,
    List.dropWhile_append_of_pos w.forall_not_isSpace, htake, hdrop, List.append_nil]
  exact if_neg w.ne_nil

theorem sscanf_blank (t : Text) :
    sscanf (.blank :: ds) (' ' :: (w.text ++ t)) = sscanf ds (w.text ++ t) := by
  rw [sscanf, List.dropWhile_cons_of_pos (by decide), w.dropWhile_isSpace_append]

theorem sscanf_excluding {set : Text} (hset : ∀ c ∈ w.text, c ∉ set) {d : Char} (hd : d ∈ set)
    (t : Text) :
    sscanf (.excluding set :: ds) (w.text ++ d :: t) = w.text :: sscanf ds (d :: t) := by
  have hw : ∀ c ∈ w.text, (!set.contains c) = true := by simpa using hset
  have hstop : ¬ (!set.contains d) = true := by simpa using hd
  have htake : (d :: t).takeWhile (fun c => !set.contains c) = [] :=
    List.takeWhile_cons_of_neg hstop
  have hdrop : (d :: t).dropWhile (fun c => !set.contains c) = d :: t :=
    List.dropWhile_cons_of_neg hstop
  rw [sscanf, List.takeWhile_append_of_pos hw, List.dropWhile_append_of_pos hw, htake, hdrop,
    List.append_nil]
  exact if_neg w.ne_nil

end Word

theorem sscanf_words {n : ℕ} {ws : List Word} (hn : n ≤ ws.length) {t : Text}
    (ht : StartsBlank t) :
    sscanf (List.replicate n [Directive.blank, .string]).flatten (spaced ws ++ t) =
      (ws.take n).map Word.text := by
  induction n generalizing ws with
  | zero => rw [List.take_zero]; rfl
  | succ n ih =>
    cases ws with
    | nil => exact absurd hn (Nat.not_succ_le_zero n)
    | cons w ws =>
      show sscanf (.blank :: .string :: (List.replicate n [Directive.blank, .string]).flatten)
        (' ' :: (w.text ++ spaced ws ++ t)) = w.text :: (ws.take n).map Word.text
      rw [List.append_assoc, w.sscanf_blank,
        w.sscanf_string _ (startsBlank_spaced_append ws ht), ih (Nat.le_of_succ_le_succ hn)]

section Search
variable {needle : Text} {c : Char}

theorem strstr_append_cons {w : Text} (hne : needle ≠ []) (hc : c ∉ needle)
    (hw : ¬ needle <:+: w) (t : Text) : strstr (w ++ c :: t) needle = strstr t needle := by
  induction w with
  | nil =>
    have hno : ¬ needle <+: c :: t := by
      intro hpre
      obtain ⟨d, ds, rfl⟩ := List.exists_cons_of_ne_nil hne
      obtain ⟨rfl, -⟩ := List.cons_prefix_cons.mp hpre
      exact hc List.mem_cons_self
    rw [List.nil_append, strstr, if_neg hno]
  | cons d w ih =>
    have hno : ¬ needle <+: d :: (w ++ c :: t) := by
      intro hpre
      have hword : d :: w <+: d :: (w ++ c :: t) := List.prefix_append (d :: w) (c :: t)
      rcases Nat.lt_or_ge (d :: w).length needle.length with hlt | hle
      · -- A needle longer than the word would reach the byte behind it.
        have hcut : d :: w ++ [c] <+: d :: (w ++ c :: t) := ⟨t, by simp⟩
        have hin : d :: w ++ [c] <+: needle :=
          List.prefix_of_prefix_length_le hcut hpre
            (by rw [List.length_append, List.length_singleton]; exact hlt)
        exact hc (hin.subset (by simp))
      · exact hw (List.prefix_of_prefix_length_le hpre hword hle).isInfix
    rw [List.cons_append, strstr, if_neg hno]
    exact ih fun hin => hw (hin.trans (List.suffix_cons d w).isInfix)

theorem strstr_spaced_append {w : Text} {ws : List Word} (hne : needle ≠ []) (hc : ' ' ∉ needle)
    (hw : ¬ needle <:+: w) (hws : ∀ v ∈ ws, ¬ needle <:+: v.text) (t : Text) :
    strstr (w ++ (spaced ws ++ ' ' :: t)) needle = strstr t needle := by
  induction ws generalizing w with
  | nil => exact strstr_append_cons hne hc hw t
  | cons v ws ih =>
    obtain ⟨hv, hws⟩ := List.forall_mem_cons.mp hws
    rw [spaced_cons, List.cons_append, strstr_append_cons hne hc hw, List.append_assoc]
    exact ih hv hws

end Search
end CLib.Base
