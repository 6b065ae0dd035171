import CLib.Server.Config

namespace CLib.Server
open CLib.Base

/-- The address is looked up exactly: an index is that of the first entry equal to it,
and `-1` says that no entry in reach is. -/
structure AdmittedExactly (servers : List Text) (ip : Text) : Prop where
  found : ∀ i, getIndexOfAgentIpTables servers ip = some i →
    servers[i]? = some ip ∧ ∀ j < i, servers[j]? ≠ some ip
  refused : getIndexOfAgentIpTables servers ip = none ↔
    ∀ i < min servers.length threadMax, servers[i]? ≠ some ip

/-- Every entry in reach that the address only begins comes after one that equals it. -/
def NoLongerEntryFirst (servers : List Text) (ip : Text) : Prop :=
  ∀ i < min servers.length threadMax, ∀ server, servers[i]? = some server → ip <+: server →
    server ≠ ip → ∃ j < i, servers[j]? = some ip

variable {servers : List Text} {ip : Text}

theorem getIndexOfAgentIpTables_eq_none_iff :
    getIndexOfAgentIpTables servers ip = none ↔
      ∀ i < min servers.length threadMax, ∀ server, servers[i]? = some server →
        ¬ ip <+: server := by
  rw [getIndexOfAgentIpTables, List.findIdx?_eq_none_iff]
  constructor
  · intro h i hi server hserver hpre
    have hmem : server ∈ servers.take threadMax :=
      List.mem_of_getElem? ((List.getElem?_take_of_lt (by omega)).trans hserver)
    have hfalse := h server hmem
    rw [(strncmpZero_length_right server ip).mpr hpre] at hfalse
    cases hfalse
  · intro h server hmem
    obtain ⟨i, hi, rfl⟩ := List.mem_iff_getElem.mp hmem
    rw [List.length_take, Nat.min_comm] at hi
    have hget : servers[i]? = some (servers.take threadMax)[i] := by
      rw [List.getElem_take, List.getElem?_eq_getElem]
    have hnot := mt (strncmpZero_length_right _ ip).mp (h i hi _ hget)
    simpa using hnot

/-- The comparison over `strlen(ip)` bytes is exact if and only if no longer entry gets
in front of the exact one. -/
theorem admittedExactly_iff : AdmittedExactly servers ip ↔ NoLongerEntryFirst servers ip := by
  constructor
  · intro h i hi server hserver hpre hne
    cases hget : getIndexOfAgentIpTables servers ip with
    | none => exact absurd hpre (getIndexOfAgentIpTables_eq_none_iff.mp hget i hi server hserver)
    | some k =>
      obtain ⟨-, -, hbefore⟩ := getIndexOfAgentIpTables_eq_some_iff.mp hget
      have hk : servers[k]? = some ip := (h.found k hget).1
      have hki : ¬ i < k := fun hik => hbefore i hik server hserver hpre
      have hik : k ≠ i := by
        intro heq
        rw [heq, hserver] at hk
        exact hne (Option.some.inj hk)
      exact ⟨k, by omega, hk⟩
  · intro h
    have hfound : ∀ i, getIndexOfAgentIpTables servers ip = some i →
        servers[i]? = some ip ∧ ∀ j < i, servers[j]? ≠ some ip := by
      intro i hget
      obtain ⟨hi, ⟨server, hserver, hpre⟩, hbefore⟩ := getIndexOfAgentIpTables_eq_some_iff.mp hget
      have hexact : ∀ j < i, servers[j]? ≠ some ip :=
        fun j hj hip => hbefore j hj ip hip List.prefix_rfl
      refine ⟨?_, hexact⟩
      by_cases heq : server = ip
      · rw [hserver, heq]
      · -- A longer entry has the exact one in front of it, which would have been found first.
        obtain ⟨hlen, -⟩ := List.getElem?_eq_some_iff.mp hserver
        obtain ⟨j, hj, hip⟩ := h i (by omega) server hserver hpre heq
        exact absurd hip (hexact j hj)
    refine ⟨hfound, fun hnone i hi hip => ?_, fun hnone => ?_⟩
    · exact getIndexOfAgentIpTables_eq_none_iff.mp hnone i hi ip hip List.prefix_rfl
    · cases hget : getIndexOfAgentIpTables servers ip with
      | none => rfl
      | some k =>
        obtain ⟨hk, -, -⟩ := getIndexOfAgentIpTables_eq_some_iff.mp hget
        have hip := (hfound k hget).1
        obtain ⟨hlen, -⟩ := List.getElem?_eq_some_iff.mp hip
        exact absurd hip (hnone k (by omega))

theorem inetNtop_injective : Function.Injective inetNtop := by
  intro p q h
  obtain ⟨ha, hb, hc, hd⟩ := inetNtop_prefix (show inetNtop p <+: inetNtop q by rw [h])
  obtain ⟨-, -, -, hd'⟩ := inetNtop_prefix (show inetNtop q <+: inetNtop p by rw [h])
  -- The last number is only a prefix of the other one, in both directions.
  have hlen := le_antisymm hd.length_le hd'.length_le
  exact Ip.ext ha hb hc (UInt8.toNat_inj.mp (percentU_injective (hd.eq_of_length hlen)))

/-- Two peers are looked up exactly, and if they get one slot they are one peer. -/
structure PeersAdmittedExactly (servers : List Text) (p q : Ip) : Prop where
  left : AdmittedExactly servers (inetNtop p)
  right : AdmittedExactly servers (inetNtop q)
  slot : ∀ i, getIndexOfAgentIpTables servers (inetNtop p) = some i →
    getIndexOfAgentIpTables servers (inetNtop q) = some i → p = q

/-- Admission is by exact address for the lists and peers in which no configured entry
that a peer's address merely begins stands in front of the exact one. -/
theorem admission_exact_iff (servers : List Text) (p q : Ip) :
    PeersAdmittedExactly servers p q ↔
      NoLongerEntryFirst servers (inetNtop p) ∧ NoLongerEntryFirst servers (inetNtop q) := by
  constructor
  · intro h
    exact ⟨admittedExactly_iff.mp h.left, admittedExactly_iff.mp h.right⟩
  · rintro ⟨hp, hq⟩
    have hp' := admittedExactly_iff.mpr hp
    have hq' := admittedExactly_iff.mpr hq
    refine ⟨hp', hq', fun i hi hi' => ?_⟩
    have hsame : some (inetNtop p) = some (inetNtop q) := by
      rw [← (hp'.found i hi).1, (hq'.found i hi').1]
    exact inetNtop_injective (Option.some.inj hsame)

/-- With `10.0.0.12` configured, the peer `10.0.0.1` is let in under its slot. -/
theorem not_peersAdmittedExactly :
    getIndexOfAgentIpTables ["10.0.0.12".toList] (inetNtop ⟨10, 0, 0, 1⟩) = some 0 ∧
      getIndexOfAgentIpTables ["10.0.0.12".toList] (inetNtop ⟨10, 0, 0, 12⟩) = some 0 ∧
      ¬ ∀ servers p q, PeersAdmittedExactly servers p q := by
  have hp : getIndexOfAgentIpTables ["10.0.0.12".toList] (inetNtop ⟨10, 0, 0, 1⟩) = some 0 := by
    decide +kernel
  have hq : getIndexOfAgentIpTables ["10.0.0.12".toList] (inetNtop ⟨10, 0, 0, 12⟩) = some 0 := by
    decide +kernel
  refine ⟨hp, hq, fun h => ?_⟩
  have heq := (h ["10.0.0.12".toList] ⟨10, 0, 0, 1⟩ ⟨10, 0, 0, 12⟩).slot 0 hp hq
  revert heq
  decide

end CLib.Server
