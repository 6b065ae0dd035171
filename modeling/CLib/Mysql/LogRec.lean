import CLib.Base.Memory

namespace CLib.Mysql
open CLib.Base

/-- `STR_LEN`, the size of a member of `davinci_log_rec_t` and of a cache key. -/
def strLen : ℕ := 128

inductive LogRecMember
  | dbname | tbname | queryType | dbhost | dbport | username | userhost | queryDate | queryTime
  | sendQueryTime | receiveResultTime | sendResultTime | totalTime | affectedRows | resultSize
  | queryCount | logType | json | getSign | fingerprint | reserved
  deriving DecidableEq

/-- `davinci_log_rec_t`: members of `STR_LEN` bytes, one behind the other. -/
def davinciLogRecT : List LogRecMember :=
  [.dbname, .tbname, .queryType, .dbhost, .dbport, .username, .userhost, .queryDate, .queryTime,
    .sendQueryTime, .receiveResultTime, .sendResultTime, .totalTime, .affectedRows, .resultSize,
    .queryCount, .logType, .json, .getSign, .fingerprint, .reserved]

def LogRecMember.offset (f : LogRecMember) : ℕ := davinciLogRecT.idxOf f * strLen

def sizeofLogRec : ℕ := davinciLogRecT.length * strLen

/-- `"%s %s %[^/*##]/*## %s ..."` with the twenty fields of a record. -/
def logRecFormat : List Directive :=
  [.string, .blank, .string, .blank, .excluding "/*##".toList, .literal '/', .literal '*',
    .literal '#', .literal '#'] ++ (List.replicate 17 [Directive.blank, .string]).flatten

/-- The arguments of the two `sscanf`; that of `dispatch_func` has the first five. -/
def scannedMembers : List LogRecMember :=
  [.dbname, .tbname, .queryType, .reserved, .dbhost, .dbport, .username, .userhost, .queryDate,
    .queryTime, .sendQueryTime, .receiveResultTime, .sendResultTime, .totalTime, .affectedRows,
    .resultSize, .queryCount, .logType, .json, .getSign]

/-- What the conversions write, one after the other and without a width, into the structure
that has been cleared. -/
def storeWords (words : List Text) : Memory :=
  (scannedMembers.zip words).foldl (fun m p => m.store p.1.offset p.2) .zeroed

/-- No conversion writes past the end of the structure. -/
def WordsFit (words : List Text) : Prop :=
  ∀ p ∈ scannedMembers.zip words, p.1.offset + p.2.length < sizeofLogRec

instance (words : List Text) : Decidable (WordsFit words) :=
  inferInstanceAs (Decidable (∀ p ∈ scannedMembers.zip words, _ < _))

/-- A member read as a string, up to the end of the structure. -/
def member (m : Memory) (f : LogRecMember) : Text := m.stringAt (sizeofLogRec - f.offset) f.offset

section Members
variable {f g : LogRecMember} {m : Memory} {ps : List (LogRecMember × Text)} {i : ℕ}

theorem mem_davinciLogRecT (f : LogRecMember) : f ∈ davinciLogRecT := by cases f <;> decide

theorem offset_add_strLen_le (f : LogRecMember) : f.offset + strLen ≤ sizeofLogRec := by
  have hlt := List.idxOf_lt_length_of_mem (mem_davinciLogRecT f)
  rw [LogRecMember.offset, sizeofLogRec, ← Nat.succ_mul]
  exact Nat.mul_le_mul_right strLen hlt

theorem store_offset_add {t : Text} (hfg : f ≠ g) (ht : t.length < strLen) (hi : i < strLen) :
    m.store g.offset t (f.offset + i) = m (f.offset + i) := by
  have hidx : davinciLogRecT.idxOf f ≠ davinciLogRecT.idxOf g :=
    fun he => hfg ((List.idxOf_inj (mem_davinciLogRecT f)).mp he)
  apply Memory.store_apply_of_not
  unfold LogRecMember.offset strLen at *
  omega

theorem foldl_store_of_notMem (hshort : ∀ p ∈ ps, p.2.length < strLen) (hf : f ∉ ps.map Prod.fst)
    (hi : i < strLen) :
    ps.foldl (fun m p => m.store p.1.offset p.2) m (f.offset + i) = m (f.offset + i) := by
  induction ps generalizing m with
  | nil => rfl
  | cons p ps ih =>
    rw [List.map_cons, List.mem_cons, not_or] at hf
    rw [List.foldl_cons, ih (fun q hq => hshort q (List.mem_cons_of_mem p hq)) hf.2]
    exact store_offset_add hf.1 (hshort p List.mem_cons_self) hi

theorem member_foldl_store (hshort : ∀ p ∈ ps, p.2.length < strLen) (hnodup : (ps.map Prod.fst).Nodup)
    {t : Text} (hmem : (f, t) ∈ ps) :
    member (ps.foldl (fun m p => m.store p.1.offset p.2) m) f = t := by
  have hroom := offset_add_strLen_le f
  have ht : t.length < strLen := hshort _ hmem
  induction ps generalizing m with
  | nil => cases hmem
  | cons p ps ih =>
    have hshort' : ∀ q ∈ ps, q.2.length < strLen := fun q hq => hshort q (List.mem_cons_of_mem p hq)
    rw [List.map_cons, List.nodup_cons] at hnodup
    rw [List.foldl_cons]
    rcases List.mem_cons.mp hmem with rfl | hmem
    · refine Memory.stringAt_eq (fun i hi => ?_) (by omega)
      rw [foldl_store_of_notMem hshort' hnodup.1 (by omega)]
      change m.store f.offset t (f.offset + i) = t[i]?
      rw [Memory.store, if_pos (by omega)]
      congr 1
      omega
    · exact ih hshort' hnodup.2 hmem

theorem map_fst_zip_sublist (fs : List LogRecMember) (words : List Text) :
    ((fs.zip words).map Prod.fst).Sublist fs := by
  induction fs generalizing words with
  | nil => rfl
  | cons f fs ih =>
    cases words with
    | nil => exact List.nil_sublist _
    | cons w words => exact (ih words).cons_cons f

theorem member_storeWords {words : List Text} (hshort : ∀ w ∈ words, w.length < strLen) {t : Text}
    (hmem : (f, t) ∈ scannedMembers.zip words) : member (storeWords words) f = t := by
  refine member_foldl_store (fun p hp => hshort p.2 (List.of_mem_zip hp).2) ?_ hmem
  have hnodup : scannedMembers.Nodup := by decide
  exact hnodup.sublist (map_fst_zip_sublist _ _)

theorem member_foldl_store_of_behind (hshort : (member m f).length < strLen)
    (hbehind : ∀ p ∈ ps, f.offset + strLen ≤ p.1.offset) :
    member (ps.foldl (fun m p => m.store p.1.offset p.2) m) f = member m f := by
  have hroom := offset_add_strLen_le f
  induction ps generalizing m with
  | nil => rfl
  | cons p ps ih =>
    have hp := hbehind p List.mem_cons_self
    have hkeep : member (m.store p.1.offset p.2) f = member m f :=
      Memory.stringAt_store_of_gt rfl (hshort.trans_le (by omega)) (by omega)
    rw [List.foldl_cons, ih (by rwa [hkeep]) fun q hq => hbehind q (List.mem_cons_of_mem p hq), hkeep]

theorem foldl_store_of_lt {o : ℕ} (h : ∀ p ∈ ps, o < p.1.offset) :
    ps.foldl (fun m p => m.store p.1.offset p.2) m o = m o := by
  induction ps generalizing m with
  | nil => rfl
  | cons p ps ih =>
    have hp := h p List.mem_cons_self
    rw [List.foldl_cons, ih fun q hq => h q (List.mem_cons_of_mem p hq)]
    exact Memory.store_apply_of_not (by omega)

theorem dbhost_storeWords_append {words : List Text} (h : words.length = 5) (more : List Text)
    (hshort : (member (storeWords words) .dbhost).length < strLen) :
    member (storeWords (words ++ more)) .dbhost = member (storeWords words) .dbhost := by
  have hzip : scannedMembers.zip (words ++ more) =
      scannedMembers.zip words ++ (scannedMembers.drop 5).zip more := by
    obtain ⟨a, b, c, d, e, rfl⟩ : ∃ a b c d e, words = [a, b, c, d, e] := by
      match words, h with
      | [a, b, c, d, e], _ => exact ⟨a, b, c, d, e, rfl⟩
    rfl
  unfold storeWords at hshort ⊢
  rw [hzip, List.foldl_append]
  refine member_foldl_store_of_behind hshort fun p hp => ?_
  have hmem : p.1 ∈ scannedMembers.drop 5 := (List.of_mem_zip hp).1
  revert hmem
  generalize p.1 = g
  revert g
  decide

end Members

section QueryType
variable {d t q p : Text} {words : List Text}

theorem prefix_queryType_iff (h : WordsFit (d :: t :: q :: words)) (hp : p.length ≤ strLen) :
    p <+: member (storeWords (d :: t :: q :: words)) .queryType ↔ p <+: q := by
  have hq : LogRecMember.queryType.offset + q.length < sizeofLogRec :=
    h (.queryType, q) (by simp [scannedMembers])
  have hroom := offset_add_strLen_le .queryType
  let m := (Memory.zeroed.store LogRecMember.dbname.offset d).store LogRecMember.tbname.offset t
  -- The members of the further words begin behind the bytes that are compared.
  have hbehind : ∀ f ∈ scannedMembers.drop 3, LogRecMember.queryType.offset + strLen ≤ f.offset := by
    decide
  have hfirst : scannedMembers = .dbname :: .tbname :: .queryType :: scannedMembers.drop 3 := rfl
  have hsplit : storeWords (d :: t :: q :: words) = ((scannedMembers.drop 3).zip words).foldl
      (fun m p => m.store p.1.offset p.2) (m.store LogRecMember.queryType.offset q) := by
    unfold storeWords
    conv_lhs => rw [hfirst]
    simp only [List.zip_cons_cons, List.foldl_cons, m]
  have hkeep : ∀ i < p.length, storeWords (d :: t :: q :: words) (LogRecMember.queryType.offset + i) =
      m.store LogRecMember.queryType.offset q (LogRecMember.queryType.offset + i) := by
    intro i hi
    rw [hsplit]
    refine foldl_store_of_lt fun g hg => ?_
    exact (Nat.add_lt_add_left (hi.trans_le hp) _).trans_le (hbehind g.1 (List.of_mem_zip hg).1)
  have hstored : p <+: q ↔ p <+: (m.store LogRecMember.queryType.offset q).stringAt
      (sizeofLogRec - LogRecMember.queryType.offset) LogRecMember.queryType.offset := by
    rw [Memory.stringAt_store (by omega)]
  rw [hstored, member, Memory.prefix_stringAt_iff (by omega), Memory.prefix_stringAt_iff (by omega)]
  exact forall_congr' fun i => forall_congr' fun hi => by rw [hkeep i hi]

/-- What the words of a header without a third one leave in `queryType`. -/
def spilled (words : List Text) : Text :=
  if strLen ≤ (words.getD 1 []).length then (words.getD 1 []).drop strLen
  else (words.getD 0 []).drop (2 * strLen)

theorem stringAt_store_drop {m : Memory} {n o k : ℕ} (hm : m.stringAt n (o + k) = [])
    (hn : d.length ≤ k + n) : (m.store o d).stringAt n (o + k) = d.drop k := by
  rcases Nat.lt_or_ge d.length k with hk | hk
  · rw [Memory.stringAt_store_of_lt (by omega), hm, List.drop_of_length_le hk.le]
  · exact Memory.stringAt_store_add hk hn

theorem queryType_eq_spilled (h : WordsFit words) (hlen : words.length < 3) :
    member (storeWords words) .queryType = spilled words := by
  have hsize : sizeofLogRec - LogRecMember.queryType.offset + 2 * strLen = sizeofLogRec := by decide
  have hfirst : ∀ d : Text, d.length < sizeofLogRec →
      (Memory.zeroed.store 0 d).stringAt (sizeofLogRec - LogRecMember.queryType.offset)
        (2 * strLen) = d.drop (2 * strLen) := by
    intro d hd
    have hdrop := stringAt_store_drop (d := d) (o := 0) (k := 2 * strLen)
      (Memory.stringAt_zeroed (sizeofLogRec - LogRecMember.queryType.offset) _) (by omega)
    rwa [Nat.zero_add] at hdrop
  match words, hlen with
  | [], _ => rfl
  | [d], _ =>
    have hd : 0 + d.length < sizeofLogRec := h (.dbname, d) (by simp [scannedMembers])
    exact hfirst d (by rwa [Nat.zero_add] at hd)
  | [d, t], _ =>
    have hd : 0 + d.length < sizeofLogRec := h (.dbname, d) (by simp [scannedMembers])
    rw [Nat.zero_add] at hd
    have ht : strLen + t.length < sizeofLogRec := h (.tbname, t) (by simp [scannedMembers])
    change ((Memory.zeroed.store 0 d).store strLen t).stringAt _ (2 * strLen) = _
    rw [spilled]
    split_ifs with hlong
    · rw [Nat.two_mul]
      exact Memory.stringAt_store_add hlong (by omega)
    · rw [Memory.stringAt_store_of_lt (by rw [Nat.two_mul]; exact Nat.add_lt_add_left (not_le.mp hlong) _)]
      exact hfirst d hd

end QueryType
end CLib.Mysql
