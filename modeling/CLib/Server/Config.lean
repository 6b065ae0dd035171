import CLib.Base.CString

namespace CLib.Server
open CLib.Base

/-- The values that `load_connect_config` of the server sets. -/
structure Config where
  host : Text
  port : ℕ
  db : Text
  user : Text
  password : Text
  socket : Text
  sqlFile : List Text
  davinciServers : List Text
  sqlFileFormat : Text
  checkRe : Bool
  machineLearningOn : Bool
  idsServerPort : ℕ
  mlServerIp : Text
  mlServerPort : ℕ

/-- All globals are zero before the file is read. -/
def Config.zero : Config := ⟨[], 0, [], [], [], [], [], [], [], false, false, 0, [], 0⟩

/-- The limit of both lists of `set_parameter`. -/
def maxFileCount : ℕ := 128

/-- A value that starts with neither `0` nor `1` counts as `0`. -/
def flagValue (value : Text) : Bool := value.head? = some '1'

def setParameter (cfg : Config) (parameter value : Text) : Config :=
  if 256 < parameter.length ∨ 256 < value.length then cfg
  else if parameter = "host".toList then { cfg with host := snprintf 63 value }
  else if parameter = "port".toList then { cfg with port := atoiUnsigned value }
  else if parameter = "db".toList then { cfg with db := snprintf 31 value }
  else if parameter = "user".toList then { cfg with user := snprintf 31 value }
  else if parameter = "password".toList then { cfg with password := snprintf 31 value }
  else if parameter = "socket".toList then { cfg with socket := snprintf 255 value }
  else if parameter = "sql_file".toList then
    if cfg.sqlFile.length = maxFileCount then cfg
    else { cfg with sqlFile := cfg.sqlFile ++ [snprintf 127 value] }
  else if parameter = "davinci_server".toList then
    if cfg.davinciServers.length = maxFileCount then cfg
    else { cfg with davinciServers := cfg.davinciServers ++ [snprintf 127 value] }
  else if parameter = "sql_file_format".toList then { cfg with sqlFileFormat := snprintf 15 value }
  else if parameter = "check_re".toList then { cfg with checkRe := flagValue value }
  else if parameter = "g_machine_learning_on".toList then
    { cfg with machineLearningOn := flagValue value }
  else if parameter = "ids_server_port".toList then
    { cfg with idsServerPort := atoiUnsigned value }
  else if parameter = "ml_server_ip".toList then { cfg with mlServerIp := snprintf 16 value }
  else if parameter = "ml_server_port".toList then { cfg with mlServerPort := atoiUnsigned value }
  else cfg

/-- The configuration after `set_parameter` has been called for these settings. -/
def loadSettings (settings : List (Text × Text)) : Config :=
  settings.foldl (fun cfg s => setParameter cfg s.1 s.2) .zero

def threadMax : ℕ := 11

/-- The slot that `main` gives to the console, `THREAD_MAX - 1`. -/
def consoleSlot : ℕ := threadMax - 1

@[ext]
structure Ip where
  a : UInt8
  b : UInt8
  c : UInt8
  d : UInt8
  deriving DecidableEq

def inetNtop (ip : Ip) : Text :=
  percentU ip.a.toNat ++ '.' ::
    (percentU ip.b.toNat ++ '.' :: (percentU ip.c.toNat ++ '.' :: percentU ip.d.toNat))

def Ip.loopback : Ip := ⟨127, 0, 0, 1⟩

/-- `get_index_of_agent_ip_tables`, with `none` for `-1`. -/
def getIndexOfAgentIpTables (servers : List Text) (ip : Text) : Option ℕ :=
  (servers.take threadMax).findIdx? fun server => strncmpZero server ip ip.length

/-- What `main` makes of a peer address: the slot and whether it is that of an
agent, `none` if the address is refused. -/
def slotFor (servers : List Text) (peer : Ip) : Option (ℕ × Bool) :=
  let peerIpAddr := inetNtop peer
  if strncmpZero peerIpAddr (inetNtop .loopback) peerIpAddr.length then some (consoleSlot, false)
  else (getIndexOfAgentIpTables servers peerIpAddr).map fun i => (i, true)

theorem dot_not_mem_percentU (n : ℕ) : '.' ∉ percentU n := fun h => by
  have hdigit : '.'.isDigit = true := Nat.isDigit_of_mem_toDigits (by omega) le_rfl h
  exact absurd hdigit (by decide)

theorem append_dot_inj {x y t u : Text} (hx : '.' ∉ x) (hy : '.' ∉ y)
    (h : x ++ '.' :: t = y ++ '.' :: u) : x = y ∧ t = u := by
  rcases List.append_eq_append_iff.mp h with ⟨w, rfl, hw⟩ | ⟨w, rfl, hw⟩
  · cases w with
    | nil => simpa using hw
    | cons c w =>
      obtain ⟨rfl, -⟩ := List.cons.inj hw
      exact absurd (by simp) hy
  · cases w with
    | nil => simpa [eq_comm] using hw
    | cons c w =>
      obtain ⟨rfl, -⟩ := List.cons.inj hw
      exact absurd (by simp) hx

theorem percentU_dot_inj {n m : ℕ} {t u : Text}
    (h : percentU n ++ '.' :: t = percentU m ++ '.' :: u) : n = m ∧ t = u := by
  obtain ⟨hnm, htu⟩ := append_dot_inj (dot_not_mem_percentU n) (dot_not_mem_percentU m) h
  exact ⟨percentU_injective hnm, htu⟩

/-- An address text that starts another one differs from it at most in the last octet. -/
theorem inetNtop_prefix {p q : Ip} (h : inetNtop p <+: inetNtop q) :
    p.a = q.a ∧ p.b = q.b ∧ p.c = q.c ∧ percentU p.d.toNat <+: percentU q.d.toNat := by
  obtain ⟨t, ht⟩ := h
  simp only [inetNtop, List.append_assoc, List.cons_append] at ht
  obtain ⟨ha, ht⟩ := percentU_dot_inj ht
  obtain ⟨hb, ht⟩ := percentU_dot_inj ht
  obtain ⟨hc, ht⟩ := percentU_dot_inj ht
  exact ⟨UInt8.toNat_inj.mp ha, UInt8.toNat_inj.mp hb, UInt8.toNat_inj.mp hc, t, ht⟩

theorem loopback_test_iff (peer : Ip) :
    strncmpZero (inetNtop peer) (inetNtop .loopback) (inetNtop peer).length ↔ peer = .loopback := by
  rw [strncmpZero_length_left]
  constructor
  · intro h
    obtain ⟨ha, hb, hc, hd⟩ := inetNtop_prefix h
    have hlen : (percentU peer.d.toNat).length = (percentU Ip.loopback.d.toNat).length :=
      le_antisymm hd.length_le (percentU_length_pos _)
    exact Ip.ext ha hb hc (UInt8.toNat_inj.mp (percentU_injective (hd.eq_of_length hlen)))
  · rintro rfl
    exact List.prefix_rfl

theorem slotFor_of_ne {peer : Ip} (h : peer ≠ .loopback) (servers : List Text) :
    slotFor servers peer =
      (getIndexOfAgentIpTables servers (inetNtop peer)).map fun i => (i, true) := by
  rw [slotFor, if_neg (mt (loopback_test_iff peer).mp h)]

/-- The eleventh configured server starts with the address, and none before it does. -/
def NamedEleventh (servers : List Text) (peer : Ip) : Prop :=
  (∃ server, servers[consoleSlot]? = some server ∧ inetNtop peer <+: server) ∧
    ∀ i < consoleSlot, ∀ server, servers[i]? = some server → ¬ inetNtop peer <+: server

theorem getIndexOfAgentIpTables_eq_some_iff {servers : List Text} {ip : Text} {i : ℕ} :
    getIndexOfAgentIpTables servers ip = some i ↔
      i < threadMax ∧ (∃ server, servers[i]? = some server ∧ ip <+: server) ∧
        ∀ j < i, ∀ server, servers[j]? = some server → ¬ ip <+: server := by
  rw [getIndexOfAgentIpTables, List.findIdx?_eq_some_iff_getElem]
  simp only [List.length_take, List.getElem_take, strncmpZero_length_right, Nat.lt_min]
  constructor
  · rintro ⟨⟨hmax, hlen⟩, hserver, hbefore⟩
    refine ⟨hmax, ⟨_, List.getElem?_eq_getElem hlen, hserver⟩, fun j hj server hget => ?_⟩
    obtain ⟨-, rfl⟩ := List.getElem?_eq_some_iff.mp hget
    exact hbefore j hj
  · rintro ⟨hmax, ⟨server, hget, hserver⟩, hbefore⟩
    obtain ⟨hlen, rfl⟩ := List.getElem?_eq_some_iff.mp hget
    exact ⟨⟨hmax, hlen⟩, hserver, fun j hj =>
      hbefore j hj _ (List.getElem?_eq_getElem (hj.trans hlen))⟩

theorem getIndexOfAgentIpTables_eq_consoleSlot_iff {servers : List Text} {peer : Ip} :
    getIndexOfAgentIpTables servers (inetNtop peer) = some consoleSlot ↔
      NamedEleventh servers peer := by
  rw [getIndexOfAgentIpTables_eq_some_iff, NamedEleventh]
  exact and_iff_right (by decide)

end CLib.Server
